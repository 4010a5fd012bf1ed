import Certus.RemoteLookup.Steps

/-! # The books of the actor

What the log says about slots and operations agrees with the tables, whatever peers and other
threads do. -/

namespace Certus.RemoteLookup

open List Option OrdMap

/-- The acts the books are about. -/
def Act.booked : Act → Bool
  | .submitted _ _ | .reserved _ _ _ _ | .advertised _ _ _ _ | .published _ _ _ => true
  | _ => false

namespace World

variable {env : Env} {w w' : World} {o o' : OpId} {key key' : CacheKey} {s : KeyState}

/-- **The books.** -/
structure Books (w : World) : Prop where
  /-- The keys an operation asks for have a state. -/
  tracked : ∀ {o key size}, w.sizeOf o key = some size → w.tracks o key
  /-- Live operations were submitted. -/
  submitted : ∀ {o entries}, w.entriesOf o = some entries → .submitted o entries ∈ w.log
  /-- Serial numbers are used up in order. -/
  serials : ∀ {n o key peer}, .reserved n o key peer ∈ w.log → n < w.serial
  /-- A serial number stands for one reservation. -/
  unique : ∀ {n o key peer o' key' peer'}, .reserved n o key peer ∈ w.log →
    .reserved n o' key' peer' ∈ w.log → o' = o ∧ key' = key ∧ peer' = peer
  /-- Slots are reserved for submitted operations. -/
  owned : ∀ {n o key peer}, .reserved n o key peer ∈ w.log → ∃ entries, .submitted o entries ∈ w.log
  /-- Only reserved slots are advertised. -/
  advertised : ∀ {n o key peer}, .advertised n o key peer ∈ w.log → .reserved n o key peer ∈ w.log
  /-- Only reserved slots are published. -/
  published : ∀ {n o key}, .published n o key ∈ w.log → ∃ peer, .reserved n o key peer ∈ w.log
  /-- The slots of operations are reserved. -/
  slots : ∀ {o key slot}, w.slotOf o key = some slot →
    .reserved slot.serial o key slot.peer ∈ w.log ∧ w.sizeOf o key = some slot.len
  /-- Orphaned slots are those of operations that have ended. -/
  orphans : ∀ {key orphan}, w.orphans.get? key = some orphan →
    ∃ o, .reserved orphan.serial o key orphan.peer ∈ w.log ∧ ¬w.live o

/-- The books do not see the difference. -/
structure Alike (w w' : World) : Prop where
  slots : ∀ o key, w'.slotOf o key = w.slotOf o key
  sizes : ∀ o key, w'.sizeOf o key = w.sizeOf o key
  tracks : ∀ o key, w'.tracks o key ↔ w.tracks o key
  entries : ∀ o, w'.entriesOf o = w.entriesOf o
  orphans : w'.orphans = w.orphans
  serial : w'.serial = w.serial
  log : ∀ act, act.booked → (act ∈ w'.log ↔ act ∈ w.log)

open Alike

/-- A live operation is one with entries. -/
theorem live_iff_entriesOf : w.live o ↔ (w.entriesOf o).isSome := by
  unfold live entriesOf
  rw [isSome_map]

/-- The same operations are live. -/
theorem Alike.live (h : Alike w w') (o : OpId) : w'.live o ↔ w.live o := by
  rw [live_iff_entriesOf, live_iff_entriesOf, h.entries]

/-- **What the books do not see** leaves them in order. -/
theorem Books.alike (h : Alike w w') (hw : w.Books) : w'.Books where
  tracked hsize := (h.tracks _ _).mpr (hw.tracked ((h.sizes _ _).symm.trans hsize))
  submitted hentries := (h.log _ rfl).mpr (hw.submitted ((h.entries _).symm.trans hentries))
  serials hres := by
    rw [h.serial]
    exact hw.serials ((h.log _ rfl).mp hres)
  unique h₁ h₂ := hw.unique ((h.log _ rfl).mp h₁) ((h.log _ rfl).mp h₂)
  owned hres := by
    obtain ⟨entries, hsub⟩ := hw.owned ((h.log _ rfl).mp hres)
    exact ⟨entries, (h.log _ rfl).mpr hsub⟩
  advertised hadv := (h.log _ rfl).mpr (hw.advertised ((h.log _ rfl).mp hadv))
  published hpub := by
    obtain ⟨peer, hres⟩ := hw.published ((h.log _ rfl).mp hpub)
    exact ⟨peer, (h.log _ rfl).mpr hres⟩
  slots hslot := by
    obtain ⟨hres, hsize⟩ := hw.slots ((h.slots _ _).symm.trans hslot)
    exact ⟨(h.log _ rfl).mpr hres, (h.sizes _ _).trans hsize⟩
  orphans hget := by
    rw [h.orphans] at hget
    obtain ⟨o, hres, hlive⟩ := hw.orphans hget
    exact ⟨o, (h.log _ rfl).mpr hres, fun hl => hlive ((h.live o).mp hl)⟩

/-! ### What the books do not see -/

/-- Quiet steps leave every field the books read. -/
theorem Alike.of_quiet (h : Quiet w w') : Alike w w' where
  slots _ _ := h.slotOf
  sizes _ _ := h.sizeOf
  tracks _ _ := h.tracks
  entries _ := h.entriesOf
  orphans := h.orphans
  serial := h.serial
  log act _ := by rw [h.log]

/-- The state of a key is not booked, and neither is its turn in the log. -/
theorem Alike.setState : Alike w (w.setState o key s) where
  slots _ _ := slotOf_setState
  sizes _ _ := sizeOf_setState
  tracks _ _ := tracks_setState
  entries _ := entriesOf_setState
  orphans := orphans_setState
  serial := serial_setState
  log act hact := mem_log_setState (by rintro o k b a rfl; cases hact)

/-- An act that is not booked enters the log. -/
theorem Alike.record {act : Act} (h : act.booked = false) : Alike w (w.record act) where
  slots _ _ := rfl
  sizes _ _ := rfl
  tracks _ _ := Iff.rfl
  entries _ := rfl
  orphans := rfl
  serial := rfl
  log act' hact' := by
    refine mem_cons.trans (or_iff_right ?_)
    rintro rfl
    rw [h] at hact'
    cases hact'

/-- Two steps, one after the other. -/
theorem Alike.trans {u : World} (h : Alike w w') (h' : Alike w' u) : Alike w u where
  slots o key := (h'.slots o key).trans (h.slots o key)
  sizes o key := (h'.sizes o key).trans (h.sizes o key)
  tracks o key := (h'.tracks o key).trans (h.tracks o key)
  entries o := (h'.entries o).trans (h.entries o)
  orphans := h'.orphans.trans h.orphans
  serial := h'.serial.trans h.serial
  log act hact := (h'.log act hact).trans (h.log act hact)

/-- A world with the same operations, orphans, serial number and log. -/
theorem Alike.of_eq (hops : w'.ops = w.ops) (horphans : w'.orphans = w.orphans)
    (hserial : w'.serial = w.serial) (hlog : w'.log = w.log) : Alike w w' where
  slots o key := by unfold slotOf; rw [hops]
  sizes o key := by unfold sizeOf; rw [hops]
  tracks o key := by unfold World.tracks; rw [hops]
  entries o := by unfold entriesOf; rw [hops]
  orphans := horphans
  serial := hserial
  log act _ := by rw [hlog]

/-- A call has been answered. -/
theorem Alike.next : Alike w w.next := of_eq rfl rfl rfl rfl

/-- Keys in flight are not booked. -/
theorem Alike.inFlight {inFlight : OrdMap CacheKey InFlight} : Alike w { w with inFlight } :=
  of_eq rfl rfl rfl rfl

/-- The actor stops. -/
theorem Alike.halted {running : Bool} : Alike w { w with running } := of_eq rfl rfl rfl rfl

/-- The operation becomes the one that fetches the key. -/
theorem Alike.serve : Alike w (w.serve o key) := of_eq rfl rfl rfl rfl

/-- The dispatch map is not booked. -/
theorem Alike.map {map : DispatchMap} : Alike w { w with map } := of_eq rfl rfl rfl rfl

/-- Other threads change the dispatch map. -/
theorem Alike.meanwhile : Alike w (w.meanwhile env) := of_eq rfl rfl rfl rfl

/-- The write reference on the new entry is given up. -/
theorem Alike.releaseWrite : Alike w (w.releaseWrite env key) := of_eq rfl rfl rfl rfl

/-- What the map holds for the key is noted. -/
theorem Alike.observe : Alike w (w.observe key) := by
  unfold World.observe
  split
  · exact record rfl
  · exact of_eq rfl rfl rfl rfl

/-- The caller is answered. -/
theorem Alike.answer {results : BatchResult} : Alike w (w.answer o results) := by
  unfold World.answer
  split
  · exact (show Alike w { w with callers := w.callers.erase o } from
      of_eq rfl rfl rfl rfl).trans (record rfl)
  · exact of_eq rfl rfl rfl rfl

/-- The acknowledgements of a teardown are not booked. -/
theorem Alike.teardownPeer {peer : PeerId} : Alike w (w.teardownPeer env peer) := by
  rw [teardownPeer_eq]
  refine ⟨fun _ _ => rfl, fun _ _ => rfl, fun _ _ => Iff.rfl, fun _ => rfl, rfl, rfl,
    fun act hact => ?_⟩
  rw [mem_append, mem_reverse, mem_cons]
  constructor
  · rintro (h | rfl | h)
    · obtain ⟨peer, i, rfl⟩ := acked_of_mem_acksOf h
      cases hact
    · cases hact
    · exact h
  · exact fun h => .inr (.inr h)

/-! ### What the books see -/

variable {slot : LandingSlot} {op : Operation} {from_ : PeerId} {exposed : OpId × CacheKey × ℕ}
  {entries : List (CacheKey × UInt32)} {n : ℕ}

/-- **A reservation.** Its serial number is new, and its operation live. -/
theorem Books.withSlot (h : w.Books) (hsize : w.sizeOf o key = some slot.len)
    (hserial : slot.serial = w.serial) : (w.withSlot o key slot).Books := by
  have hlive : w.live o := live_of_sizeOf hsize
  obtain ⟨-, horphans, hser, hlog⟩ := @withSlot_rest w o key slot
  have hmem := @mem_log_withSlot w o key slot
  have hold := @of_mem_log_withSlot w o key slot
  have hres : ∀ {n o' key' peer}, .reserved n o' key' peer ∈ (w.withSlot o key slot).log →
      (n = slot.serial ∧ o' = o ∧ key' = key ∧ peer = slot.peer) ∨
        .reserved n o' key' peer ∈ w.log := fun hact => by
    rw [hlog, mem_cons, Act.reserved.injEq] at hact
    exact hact
  obtain ⟨entries, hentries⟩ : ∃ entries, w.entriesOf o = some entries :=
    isSome_iff_exists.mp (live_iff_entriesOf.mp hlive)
  refine ⟨?_, ?_, ?_, ?_, ?_, ?_, ?_, ?_, ?_⟩
  · intro o' key' size hsize'
    rw [withSlot_ops.sizeOf] at hsize'
    exact withSlot_ops.tracks.mpr (h.tracked hsize')
  · intro o' entries' hentries'
    rw [withSlot_ops.entriesOf] at hentries'
    exact hmem (h.submitted hentries')
  · intro n o' key' peer hact
    rw [hser]
    rcases hres hact with ⟨rfl, -⟩ | hact
    · omega
    · exact Nat.lt_succ_of_lt (h.serials hact)
  · intro n o₁ k₁ p₁ o₂ k₂ p₂ h₁ h₂
    -- the serial number is new, so it stands for no earlier reservation
    rcases hres h₁ with ⟨rfl, rfl, rfl, rfl⟩ | h₁' <;> rcases hres h₂ with ⟨hn, rfl, rfl, rfl⟩ | h₂'
    · exact ⟨rfl, rfl, rfl⟩
    · exact absurd (h.serials h₂') (by omega)
    · exact absurd (h.serials h₁') (by omega)
    · exact h.unique h₁' h₂'
  · intro n o' key' peer hact
    rcases hres hact with ⟨-, rfl, -⟩ | hact
    · exact ⟨entries, hmem (h.submitted hentries)⟩
    · obtain ⟨entries', hsub⟩ := h.owned hact
      exact ⟨entries', hmem hsub⟩
  · intro n o' key' peer hact
    exact hmem (h.advertised (hold hact (by simp)))
  · intro n o' key' hact
    obtain ⟨peer, hpeer⟩ := h.published (hold hact (by simp))
    exact ⟨peer, hmem hpeer⟩
  · intro o' key' slot' hslot
    rw [slotOf_withSlot hlive] at hslot
    rw [withSlot_ops.sizeOf]
    split_ifs at hslot with heq
    · obtain ⟨rfl, rfl⟩ := heq
      obtain rfl := some.inj hslot
      refine ⟨?_, hsize⟩
      rw [hlog]
      exact mem_cons_self ..
    · exact ⟨hmem (h.slots hslot).1, (h.slots hslot).2⟩
  · intro key' orphan hget
    rw [horphans] at hget
    obtain ⟨o', hact, hdead⟩ := h.orphans hget
    exact ⟨o', hmem hact, fun hl => hdead (withSlot_ops.live.mp hl)⟩

/-- A slot is taken from its operation. -/
theorem Books.dropSlot (h : w.Books) : (w.dropSlot o key).Books := by
  have hrest : SameRest w (w.dropSlot o key) := dropSlot_rest
  refine ⟨?_, ?_, ?_, ?_, ?_, ?_, ?_, ?_, ?_⟩
  · intro o' key' size hsize
    exact dropSlot_ops.tracks.mpr (h.tracked (dropSlot_ops.sizeOf.symm.trans hsize))
  · intro o' entries hentries
    rw [hrest.log]
    exact h.submitted (dropSlot_ops.entriesOf.symm.trans hentries)
  · intro n o' key' peer
    rw [hrest.log, hrest.serial]
    exact h.serials
  · intro n o₁ k₁ p₁ o₂ k₂ p₂
    rw [hrest.log]
    exact h.unique
  · intro n o' key' peer
    rw [hrest.log]
    exact h.owned
  · intro n o' key' peer
    rw [hrest.log]
    exact h.advertised
  · intro n o' key'
    rw [hrest.log]
    exact h.published
  · intro o' key' slot hslot
    rw [slotOf_dropSlot] at hslot
    split_ifs at hslot
    rw [hrest.log, dropSlot_ops.sizeOf]
    exact h.slots hslot
  · intro key' orphan
    rw [hrest.orphans, hrest.log]
    intro hget
    obtain ⟨o', hres, hdead⟩ := h.orphans hget
    exact ⟨o', hres, fun hl => hdead (dropSlot_ops.live.mp hl)⟩

/-- An act other than a reservation enters the log, about a slot that is reserved. -/
theorem Books.note {act : Act} (h : w.Books)
    (hadv : ∀ n o key peer, act = .advertised n o key peer → .reserved n o key peer ∈ w.log)
    (hpub : ∀ n o key, act = .published n o key → ∃ peer, .reserved n o key peer ∈ w.log)
    (hres : ∀ n o key peer, act ≠ .reserved n o key peer) : (w.record act).Books := by
  have hold : ∀ {a : Act}, a ∈ w.log → a ∈ (w.record act).log := mem_cons_of_mem _
  have hnew : ∀ {n o key peer}, .reserved n o key peer ∈ (w.record act).log →
      .reserved n o key peer ∈ w.log := fun hact =>
    (mem_cons.mp hact).resolve_left fun heq => hres _ _ _ _ heq.symm
  refine ⟨h.tracked, fun he => hold (h.submitted he), fun ha => h.serials (hnew ha),
    fun h₁ h₂ => h.unique (hnew h₁) (hnew h₂), fun ha => ?_, fun ha => ?_, fun ha => ?_,
    fun hs => ⟨hold (h.slots hs).1, (h.slots hs).2⟩, fun hget => ?_⟩
  · obtain ⟨entries, he⟩ := h.owned (hnew ha)
    exact ⟨entries, hold he⟩
  · rcases mem_cons.mp ha with heq | ha
    · exact hold (hadv _ _ _ _ heq.symm)
    · exact hold (h.advertised ha)
  · rcases mem_cons.mp ha with heq | ha
    · obtain ⟨peer, hp⟩ := hpub _ _ _ heq.symm
      exact ⟨peer, hold hp⟩
    · obtain ⟨peer, hp⟩ := h.published ha
      exact ⟨peer, hold hp⟩
  · obtain ⟨o, ho, hdead⟩ := h.orphans hget
    exact ⟨o, hold ho, hdead⟩

/-- The slot an operation has is advertised. -/
theorem Books.advertise (h : w.Books) (hslot : w.slotOf o key = some slot) :
    (w.record (.advertised slot.serial o key slot.peer)).Books :=
  h.note (fun _ _ _ _ heq => by cases heq; exact (h.slots hslot).1) fun _ _ _ heq => by cases heq
    fun _ _ _ _ heq => by cases heq

/-- The slot an operation has is published. -/
theorem Books.publish (h : w.Books) (hslot : w.slotOf o key = some slot) :
    (w.record (.published slot.serial o key)).Books :=
  h.note fun _ _ _ _ heq => by cases heq
    (fun _ _ _ heq => by cases heq; exact ⟨_, (h.slots hslot).1⟩)
    fun _ _ _ _ heq => by cases heq

/-- An orphaned slot goes. -/
theorem Books.eraseOrphan (h : w.Books) :
    ({ w with orphans := w.orphans.erase key } : World).Books := by
  refine ⟨h.tracked, h.submitted, h.serials, h.unique, h.owned, h.advertised, h.published,
    h.slots, fun hget => ?_⟩
  rw [get?_erase] at hget
  split_ifs at hget
  exact h.orphans hget

/-! ### Ending an operation -/

/-- An operation that ended has no slot. -/
theorem slotOf_drop : ({ w with ops := w.ops.erase o } : World).slotOf o' key
      = if o' = o then none else w.slotOf o' key := by
  unfold slotOf
  rw [get?_erase]
  split_ifs <;> rfl

/-- An operation that ended asks for nothing. -/
theorem sizeOf_drop : ({ w with ops := w.ops.erase o } : World).sizeOf o' key
      = if o' = o then none else w.sizeOf o' key := by
  unfold sizeOf
  rw [get?_erase]
  split_ifs <;> rfl

/-- An operation that ended has no entries. -/
theorem entriesOf_drop : ({ w with ops := w.ops.erase o } : World).entriesOf o'
      = if o' = o then none else w.entriesOf o' := by
  unfold entriesOf
  rw [get?_erase]
  split_ifs <;> rfl

/-- An operation that ended is not live. -/
theorem live_drop : ({ w with ops := w.ops.erase o } : World).live o' ↔ o' ≠ o ∧ w.live o' := by
  unfold live
  rw [get?_erase]
  split_ifs with h <;> simp [h]

/-- While an operation is being cleared away, its slots are still those it reserved. -/
structure BooksEnding (o : OpId) (op : Operation) (w : World) : Prop where
  books : w.Books
  ended : ¬w.live o
  slots : ∀ {key slot}, op.slots.get? key = some slot →
    .reserved slot.serial o key slot.peer ∈ w.log

/-- What the books do not see keeps the slots of an ending operation. -/
theorem BooksEnding.alike (h : Alike w w') (hw : BooksEnding o op w) : BooksEnding o op w' :=
  ⟨hw.books.alike h, fun hl => hw.ended ((h.live o).mp hl),
    fun hslot => (h.log _ rfl).mpr (hw.slots hslot)⟩

/-- **An operation ends**: its slots stay booked for the cleaning that follows. -/
theorem booksEnding_drop (hop : w.ops.get? o = some op) (h : w.Books) :
    BooksEnding o op { w with ops := w.ops.erase o } := by
  refine ⟨⟨?_, ?_, h.serials, h.unique, h.owned, h.advertised, h.published, ?_, ?_⟩,
    fun hl => (live_drop.mp hl).1 rfl, ?_⟩
  · intro o' key size hsize
    rw [sizeOf_drop] at hsize
    split_ifs at hsize with ho
    have htracks := h.tracked hsize
    unfold tracks at htracks ⊢
    rwa [get?_erase, if_neg ho]
  · intro o' entries hentries
    rw [entriesOf_drop] at hentries
    split_ifs at hentries
    exact h.submitted hentries
  · intro o' key slot hslot
    rw [slotOf_drop] at hslot
    rw [sizeOf_drop]
    split_ifs at hslot ⊢
    exact h.slots hslot
  · intro key orphan hget
    obtain ⟨o', hres, hdead⟩ := h.orphans hget
    exact ⟨o', hres, fun hl => hdead (live_drop.mp hl).2⟩
  · intro key slot hslot
    refine (h.slots (o := o) (?_ : w.slotOf o key = some slot)).1
    rw [slotOf, hop]
    exact hslot

/-- The books through the end of an operation; its exposed slots become orphans. -/
theorem books_ends (o : OpId) : Ends Books (BooksEnding o) o where
  drop := booksEnding_drop
  release _ _ h := h.alike Alike.inFlight
  reset _ h := h.alike Alike.setState
  without h := h.alike Alike.inFlight
  next h := h.alike Alike.next
  orphan {w op key slot deadline} hslot _ h := by
    refine ⟨⟨h.books.tracked, h.books.submitted, h.books.serials, h.books.unique, h.books.owned,
      h.books.advertised, h.books.published, h.books.slots, fun {key' orphan} hget => ?_⟩, h.ended,
      h.slots⟩
    rw [get?_insert] at hget
    split_ifs at hget with hk
    · subst hk
      obtain rfl := some.inj hget
      exact ⟨o, h.slots hslot, h.ended⟩
    · exact h.books.orphans hget
  answer h := h.books.alike Alike.answer

/-- **Fetching and finishing** keep the books. -/
theorem closed_books : Closed Books where
  quiet hquiet h := h.alike (Alike.of_quiet hquiet)
  follow {w o key inf} _ _ _ h := by
    rw [follow_eq]
    exact (h.alike Alike.inFlight).alike Alike.setState
  reserve {w o key slot} hsize _ hserial _ _ h := by
    have hres : (w.reserve o key slot).Books := (h.withSlot hsize hserial).alike Alike.setState
    exact hres.alike Alike.serve
  advertise hslot h := h.advertise hslot
  finalize h := (books_ends _).finalize h

/-! ### Statuses -/

/-- A success is published, accepted or refused; the books hold either way. -/
theorem books_publishes (env : Env) :
    Publishes env Books (fun w => w.Books ∧ w.slotOf o key = some slot) o key slot where
  meanwhile h := ⟨h.1.alike Alike.meanwhile, h.2⟩
  observe h := ⟨h.1.alike Alike.observe, (Alike.observe.slots _ _).trans h.2⟩
  publish {w map} _ h := by
    have hseen := (Alike.map (w := w)).trans (@Alike.observe { w with map } key)
    have hpub := (h.1.alike hseen).publish ((hseen.slots _ _).trans h.2)
    exact ((hpub.alike Alike.releaseWrite).alike (Alike.record rfl)).alike Alike.setState
  accept _ h := (h.1.alike Alike.observe).alike Alike.setState
  reject h := (h.1.dropSlot.alike (Alike.record rfl)).alike Alike.setState
  refuse h := h.1.alike Alike.setState

/-- A retry reserves a slot at the next peer and advertises it. -/
theorem books_retries : Retries Books Books o key where
  quiet hquiet h := h.alike (of_quiet hquiet)
  done h := h
  reserve {w slot} hsize hserial _ h := by
    have hlive := live_of_sizeOf hsize
    have hres : (w.reserve o key slot).Books := (h.withSlot hsize hserial).alike Alike.setState
    refine hres.advertise ?_
    rw [reserve_eq, slotOf_setState, slotOf_withSlot hlive, if_pos ⟨rfl, rfl⟩]

/-- A report about a slot is not booked. -/
theorem Alike.reportOn {about : Option ℕ} : Alike w (w.reportOn from_ about) := by
  cases about with
  | none => exact of_eq rfl rfl rfl rfl
  | some serial => exact record rfl

/-- Those that waited along learn the outcome. -/
theorem Books.settle {outcome : CacheKey × Bool} (h : w.Books) : (w.settle outcome).Books :=
  settle_keeps h (fun _ _ => h.alike Alike.inFlight) fun _ _ _ _ _ hv => hv.alike Alike.setState

/-- A status for an operation that ended can free an orphaned slot. -/
theorem Books.lateEntry {e : StatusEntry} (h : w.Books) : (w.lateEntry from_ e).Books := by
  have hrep : (w.reportOn from_ e.2.2).Books := h.alike Alike.reportOn
  unfold World.lateEntry
  dsimp only
  split
  · split_ifs
    · exact hrep.eraseOrphan.alike (Alike.record rfl)
    · exact hrep
  · exact hrep

/-! ### Departures and time -/

/-- A key that was to come from a departed peer is unsatisfied again. -/
theorem Alike.forsake : Alike w (w.forsake exposed) := by
  have hset : Alike w (w.setState exposed.1 exposed.2.1 .unsatisfied) := setState
  unfold World.forsake
  dsimp only
  split
  · split_ifs
    · exact foldl_keeps (P := Alike w) (hset.trans inFlight)
        fun _ _ _ hv => hv.trans setState
    · exact hset
  · exact hset

/-- The slot of an operation is given back after the teardown. -/
theorem Books.releaseExposed (h : w.Books) :
    (w.releaseExposed exposed).Books := h.dropSlot.alike (Alike.record rfl)

/-- An orphaned slot is given back after the teardown. -/
theorem Books.releaseOrphan {exposed : CacheKey × ℕ} (h : w.Books) :
    (w.releaseOrphan exposed).Books := h.eraseOrphan.alike (Alike.record rfl)

/-- A caller gives up waiting. -/
theorem Alike.callerGivesUp : Alike w (w.callerGivesUp o) := by
  unfold World.callerGivesUp
  split
  · exact answer
  · exact of_eq rfl rfl rfl rfl

/-- **The actor stops**: all operations are gone, the log stays. -/
theorem Books.stop (h : w.Books) : w.stop.Books := by
  have hall : (w.callers.keys.foldl World.callerGivesUp w).Books :=
    foldl_keeps h fun _ _ _ hv => hv.alike Alike.callerGivesUp
  refine ⟨fun hsize => (by cases hsize), fun hentries => (by cases hentries), hall.serials,
    hall.unique, hall.owned, hall.advertised, hall.published, fun hslot => (by cases hslot),
    fun hget => ?_⟩
  obtain ⟨o, hres, -⟩ := hall.orphans hget
  exact ⟨o, hres, fun hlive => (by cases hlive)⟩

/-! ### Submissions -/

/-- The operation is entered, before anything is sent. -/
def enter (env : Env) (w : World) (o : OpId) (entries : List (CacheKey × UInt32))
    (peersExpected : ℕ) : World :=
  ({ w.next with
    ops := w.ops.insert o (Operation.new entries (env.now w.calls + w.config.opDeadline)
      (env.now w.calls + w.config.phase1Timeout) peersExpected)
    callers := w.callers.insert o entries } : World).record (.submitted o entries)

/-- A new operation has a state for each key it asks for. -/
theorem Operation.tracks_new {d₁ d₂ n : ℕ} {size : UInt32}
    (h : (Operation.new entries d₁ d₂ n).sizeOf key = some size) :
    ((Operation.new entries d₁ d₂ n).state.get? key).isSome := by
  have hmem : key ∈ entries.map Prod.fst := by
    obtain ⟨e, he, -⟩ := map_eq_some_iff.mp h
    have hkey := find?_some he
    exact List.mem_map.mpr ⟨e, mem_of_find?_eq_some he, of_decide_eq_true hkey⟩
  suffices hfold : ∀ m : OrdMap CacheKey KeyState,
      key ∈ entries.map Prod.fst ∨ (m.get? key).isSome →
      ((entries.foldl (fun state e => state.insert e.1 .unsatisfied) m).get? key).isSome from
    hfold _ (.inl hmem)
  clear h hmem
  intro m
  induction entries generalizing m with
  | nil => exact fun h => h.resolve_left (by simp)
  | cons e es ih =>
    intro h
    refine ih _ ?_
    rw [get?_insert]
    split_ifs with hk
    · exact .inr rfl
    · exact h.imp (fun hmem => (mem_cons.mp hmem).resolve_left hk) id

/-- The new operation is entered under its number. -/
theorem ops_enter : (w.enter env o entries n).ops.get? o'
      = if o' = o then some (Operation.new entries (env.now w.calls + w.config.opDeadline)
          (env.now w.calls + w.config.phase1Timeout) n) else w.ops.get? o' :=
  get?_insert ..

/-- The new operation has no slot yet. -/
theorem slotOf_enter :
    (w.enter env o entries n).slotOf o' key = if o' = o then none else w.slotOf o' key := by
  unfold slotOf
  rw [ops_enter]
  split_ifs <;> rfl

/-- All keys of the new operation are unsatisfied. -/
theorem stateOf_enter : (w.enter env o entries n).stateOf o' key
      = if o' = o then .unsatisfied else w.stateOf o' key := by
  unfold stateOf
  rw [ops_enter]
  split_ifs
  · exact Operation.stateOf_new ..
  · rfl

/-- The new operation is live. -/
theorem live_enter : (w.enter env o entries n).live o' ↔ o' = o ∨ w.live o' := by
  unfold live
  rw [ops_enter]
  split_ifs with h <;> simp [h]

/-- The new operation has the entries it was submitted with. -/
theorem entriesOf_enter :
    (w.enter env o entries n).entriesOf o' = if o' = o then some entries else w.entriesOf o' := by
  unfold entriesOf
  rw [ops_enter]
  split_ifs <;> rfl

/-- The number of a new operation was never used. -/
theorem not_submitted_of_fresh (h : w.fresh (.submit o entries n))
    (entries' : List (CacheKey × UInt32)) : .submitted o entries' ∉ w.log := by
  intro hmem
  unfold fresh at h
  rw [Bool.not_eq_true', List.any_eq_false] at h
  exact h _ hmem (decide_eq_true rfl)

/-- All but the submission was in the log before. -/
theorem of_mem_log_enter {a : Act} (ha : a ∈ (w.enter env o entries n).log)
    (hne : ∀ o entries, a ≠ .submitted o entries) : a ∈ w.log :=
  (mem_cons.mp ha).resolve_left (hne _ _)

/-- **A submission.** No orphaned slot can be of the new operation. -/
theorem Books.enter (h : w.Books) (hfresh : w.fresh (.submit o entries n)) :
    (w.enter env o entries n).Books := by
  have hnew := not_submitted_of_fresh hfresh
  have hold : ∀ {a : Act}, a ∈ w.log → a ∈ (w.enter env o entries n).log := mem_cons_of_mem _
  have hres := @of_mem_log_enter env w o entries n
  refine ⟨?_, ?_, fun ha => h.serials (hres ha (by simp)),
    fun h₁ h₂ => h.unique (hres h₁ (by simp)) (hres h₂ (by simp)), ?_,
    fun ha => hold (h.advertised (hres ha (by simp))), ?_, ?_, ?_⟩
  · intro o' key size hsize
    unfold sizeOf at hsize
    unfold tracks
    rw [ops_enter] at hsize ⊢
    split_ifs at hsize ⊢
    · exact Operation.tracks_new hsize
    · exact h.tracked hsize
  · intro o' entries' hentries
    rw [entriesOf_enter] at hentries
    split_ifs at hentries with ho
    · cases hentries
      rw [ho]
      exact mem_cons_self ..
    · exact hold (h.submitted hentries)
  · intro n' o' key peer ha
    obtain ⟨entries', hsub⟩ := h.owned (hres ha (by simp))
    exact ⟨entries', hold hsub⟩
  · intro n' o' key ha
    obtain ⟨peer, hp⟩ := h.published (hres ha (by simp))
    exact ⟨peer, hold hp⟩
  · intro o' key slot hslot
    rw [slotOf_enter] at hslot
    split_ifs at hslot with ho
    obtain ⟨hact, hsize⟩ := h.slots hslot
    refine ⟨hold hact, ?_⟩
    unfold sizeOf
    rw [ops_enter, if_neg ho]
    exact hsize
  · intro key orphan hget
    obtain ⟨o', hact, hdead⟩ := h.orphans hget
    refine ⟨o', hold hact, fun hl => ?_⟩
    rcases live_enter.mp hl with rfl | hl
    · -- a slot was reserved for it before, so it is not new
      obtain ⟨entries', hsub⟩ := h.owned hact
      exact hnew entries' hsub
    · exact hdead hl

/-- **The rule for a submission.** -/
theorem onSubmit_rule {I : World → Prop} (hclosed : Closed I)
    (hshout : ∀ {w o chunk}, I w → I (w.record (.shouted o chunk)))
    (henter : I (w.enter env o entries n)) : I (w.onSubmit env o entries n) := by
  have hsent : I ((entries.toChunks (max (w.enter env o entries n).config.maxKeysPerQuery 1)).foldl
      (fun w chunk => w.record (.shouted o chunk)) (w.enter env o entries n)) :=
    foldl_keeps henter fun _ _ _ hv => hshout hv
  unfold World.onSubmit
  dsimp only
  split_ifs
  · exact hclosed.finalize hsent
  · exact hsent

/-- The books are empty at the start. -/
theorem books_new (config : LookupConfig) (map : DispatchMap) : (World.new config map).Books := by
  constructor <;> exact fun h => (by cases h)

/-- Only an actor that runs takes a step, and a submission has a new number. -/
theorem step_eq_some {e : Event × Env} (h : w.step e = some w') :
    w.fresh e.1 ∧ w' = handle e.2 ({ w with calls := 0 } : World) e.1 := by
  unfold step at h
  split_ifs at h with hrun
  rw [Bool.and_eq_true] at hrun
  exact ⟨hrun.2, (some.inj h).symm⟩

end World

end Certus.RemoteLookup
