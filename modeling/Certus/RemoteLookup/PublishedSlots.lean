import Mathlib.Data.List.Infix
import Certus.Lib.History
import Certus.RemoteLookup.Books

/-! # Published slots

Once a dispatch-map entry has been created on a landing slot, the memory belongs to the map: the
actor is not to free it, and the key stays satisfied in the operation that published it.

* **`published_kept`** — along every run of honest peers in which events are spared, published
  slots are kept. -/

namespace Certus.RemoteLookup

open List Option OrdMap World

/-- A slot on which an entry was created is not freed, and the key of the operation that created it
does not become unsatisfied again. -/
def KeepsPublished (past : List Act) : Act → Prop
  | .freed n => ∀ o key, .published n o key ∉ past
  | .turned o key .satisfied .unsatisfied => ∀ n, .published n o key ∉ past
  | _ => True

namespace World

variable {env : Env} {w w' : World} {o o' : OpId} {key key' : CacheKey} {s : KeyState}

/-! ## What peers and events are to do -/

/-- **A status entry of an honest peer**: it is about a slot of an RDMA_REQUEST the peer received
for this key of this operation, and it is the only one about it. -/
def Honest (w : World) (from_ : PeerId) (o : OpId) (e : StatusEntry) : Prop :=
  ∃ n ∈ e.2.2, .advertised n o e.1 from_ ∈ w.log ∧ .reported n from_ ∉ w.log

/-- **A current status entry**: the operation still holds the slot it is about. -/
def Current (w : World) (_ : PeerId) (o : OpId) (e : StatusEntry) : Prop :=
  (w.slotOf o e.1).map (·.serial) = e.2.2

instance (w : World) (from_ : PeerId) (o : OpId) (e : StatusEntry) :
    Decidable (w.Honest from_ o e) := by
  unfold Honest
  infer_instance

instance (w : World) (from_ : PeerId) (o : OpId) (e : StatusEntry) :
    Decidable (w.Current from_ o e) := by
  unfold Current
  infer_instance

/-- Peers send at most one status for each slot of an RDMA_REQUEST they received. -/
def HonestPeers (w : World) : Event × Env → Prop
  | (.rdmaStatus from_ o entries, env) =>
    StatusMeets env Honest Honest from_ o { w with calls := 0 } entries
  | _ => True

/-- A status of a live operation is about the slots it holds now; a peer that leaves has filled no
slot that was published and is still in the table of its operation. -/
def Spared (w : World) : Event × Env → Prop
  | (.rdmaStatus from_ o entries, env) =>
    StatusMeets env Current (fun _ _ _ _ => True) from_ o { w with calls := 0 } entries
  | (.exit peer, _) => ∀ x ∈ w.exposedInOps peer, .published x.2.2 x.1 x.2.1 ∉ w.log
  | _ => True

instance (w : World) (e : Event × Env) : Decidable (w.HonestPeers e) := by
  unfold HonestPeers
  split <;> infer_instance

instance (w : World) (e : Event × Env) : Decidable (w.Spared e) := by
  unfold Spared
  split <;> infer_instance

/-! ## The invariant -/

/-- **Published slots and those that fetch them.** The slots exposed to an `exempt` peer need not be
served. -/
structure Publication (exempt : PeerId → Prop) (w : World) : Prop where
  kept : Throughout KeepsPublished w.log
  /-- An operation that published a key keeps it satisfied, and the slot in its table. -/
  held : ∀ {n o key}, .published n o key ∈ w.log → w.live o →
    w.stateOf o key = .satisfied ∧ ∃ slot, w.slotOf o key = some slot ∧ slot.serial = n
  /-- A slot is published on the report of its peer. -/
  reported : ∀ {n o key peer}, .published n o key ∈ w.log → .reserved n o key peer ∈ w.log →
    .reported n peer ∈ w.log
  orphaned : ∀ {key orphan}, w.orphans.get? key = some orphan →
    ∀ o key', .published orphan.serial o key' ∉ w.log
  /-- A slot that was not reported on is that of the operation that fetches the key. -/
  serving : ∀ {o key slot}, w.slotOf o key = some slot → ¬exempt slot.peer →
    .reported slot.serial slot.peer ∉ w.log →
      ∃ inf, w.inFlight.get? key = some inf ∧ inf.servingOp = o
  /-- An operation does not wait for itself. -/
  apart : ∀ {key inf}, w.inFlight.get? key = some inf → inf.servingOp ∉ inf.followers
  /-- An operation that published a key does not wait for it. -/
  waiting : ∀ {key inf f n}, w.inFlight.get? key = some inf → f ∈ inf.followers →
    .published n f key ∈ w.log → ¬w.live f

namespace Publication

variable {exempt : PeerId → Prop}

theorem quiet (hquiet : Quiet w w') (h : w.Publication exempt) : w'.Publication exempt := by
  refine ⟨?_, ?_, ?_, ?_, ?_, ?_, ?_⟩ <;>
    simp only [hquiet.log, hquiet.orphans, hquiet.inFlight, hquiet.live, hquiet.slotOf,
      hquiet.stateOf]
  · exact h.kept
  · exact h.held
  · exact h.reported
  · exact h.orphaned
  · exact h.serving
  · exact h.apart
  · exact h.waiting

theorem record {act : Act} (h : w.Publication exempt) (hact : KeepsPublished w.log act)
    (hpub : ∀ n o key, act ≠ .published n o key) (hres : ∀ n o key peer, act ≠ .reserved n o key peer) :
    (w.record act).Publication exempt := by
  have hold : ∀ {n o key}, .published n o key ∈ (w.record act).log → .published n o key ∈ w.log :=
    fun hmem => (mem_cons.mp hmem).resolve_left fun heq => hpub _ _ _ heq.symm
  refine ⟨⟨hact, h.kept⟩, fun hmem => h.held (hold hmem), fun hmem hmem' => ?_,
    fun hget o key hmem => h.orphaned hget o key (hold hmem), fun hslot hex hrep => ?_, h.apart,
    fun hinf hf hmem => h.waiting hinf hf (hold hmem)⟩
  · exact mem_cons_of_mem _ (h.reported (hold hmem)
      ((mem_cons.mp hmem').resolve_left fun heq => hres _ _ _ _ heq.symm))
  · exact h.serving hslot hex fun hmem => hrep (mem_cons_of_mem _ hmem)

theorem setState (h : w.Publication exempt)
    (hpub : ∀ n, .published n o key ∈ w.log → w.live o → s = .satisfied) :
    (w.setState o key s).Publication exempt := by
  have hmem : ∀ {act : Act}, (∀ o k b a, act ≠ .turned o k b a) →
      (act ∈ (w.setState o key s).log ↔ act ∈ w.log) := mem_log_setState
  have hsat : w.stateOf o key = .satisfied → s = .satisfied →
      (w.setState o key s).stateOf o key = .satisfied := fun hstate hs => by
    rw [stateOf_setState_self (tracks_of_satisfied hstate), hs]
  refine ⟨?_, ?_, ?_, ?_, ?_, ?_, ?_⟩
  · rw [log_setState]
    split_ifs with hlive
    · refine ⟨?_, h.kept⟩
      unfold KeepsPublished
      split
      next heq => cases heq
      next hturned =>
        obtain ⟨rfl, rfl, hbefore, hafter⟩ := Act.turned.inj hturned
        intro n hn
        rw [hsat hbefore (hpub n hn hlive)] at hafter
        cases hafter
      · trivial
    · exact h.kept
  · intro n o' key' hn hlive
    rw [hmem (by simp)] at hn
    rw [live_setState] at hlive
    obtain ⟨hstate, hslot⟩ := h.held hn hlive
    refine ⟨?_, by simpa only [slotOf_setState] using hslot⟩
    by_cases hne : o' ≠ o ∨ key' ≠ key
    · rw [stateOf_setState_of_ne hne]
      exact hstate
    · obtain ⟨rfl, rfl⟩ : o' = o ∧ key' = key := by simpa [not_or] using hne
      exact hsat hstate (hpub n hn hlive)
  · intro n o' key' peer
    simp only [ne_eq, reduceCtorEq, not_false_eq_true, implies_true, hmem]
    exact h.reported
  · intro key' orphan hget o' key'' hn
    rw [orphans_setState] at hget
    exact h.orphaned hget o' key'' ((hmem (by simp)).mp hn)
  · intro o' key' slot hslot hex hrep
    rw [slotOf_setState] at hslot
    rw [inFlight_setState]
    exact h.serving hslot hex fun hn => hrep ((hmem (by simp)).mpr hn)
  · rw [inFlight_setState]
    exact h.apart
  · intro key' inf f n hinf hf hn
    rw [inFlight_setState] at hinf
    rw [live_setState]
    exact h.waiting hinf hf ((hmem (by simp)).mp hn)

variable {n : ℕ}

theorem unpublished (h : w.Publication exempt) (hstate : w.stateOf o key ≠ .satisfied)
    (hn : .published n o key ∈ w.log) : ¬w.live o :=
  fun hlive => hstate (h.held hn hlive).1

theorem withFollower {inf : InFlight} (h : w.Publication exempt)
    (hinf : w.inFlight.get? key = some inf) (hpub : ∀ n, .published n o key ∈ w.log → ¬w.live o) :
    (w.withFollower o key inf).Publication exempt := by
  have hget : ∀ {key' inf'}, (w.withFollower o key inf).inFlight.get? key' = some inf' →
      w.inFlight.get? key' = some inf' ∨ key' = key ∧ inf'.servingOp = inf.servingOp ∧
        (inf' = inf ∨ inf.servingOp ≠ o ∧ inf'.followers = inf.followers ++ [o]) := by
    intro key' inf' hget
    rw [World.withFollower, get?_insert] at hget
    by_cases hk : key' = key
    · rw [if_pos hk, some.injEq] at hget
      subst hget
      split_ifs with hnew
      · exact .inr ⟨hk, rfl, .inr ⟨hnew.1, rfl⟩⟩
      · exact .inr ⟨hk, rfl, .inl rfl⟩
    · rw [if_neg hk] at hget
      exact .inl hget
  refine ⟨h.kept, h.held, h.reported, h.orphaned, ?_, ?_, ?_⟩
  · intro o' key' slot hslot hex hrep
    obtain ⟨inf', hinf', hserving⟩ := h.serving hslot hex hrep
    rw [World.withFollower, get?_insert]
    by_cases hk : key' = key
    · rw [hk, hinf] at hinf'
      obtain rfl := some.inj hinf'
      rw [if_pos hk]
      refine ⟨_, rfl, ?_⟩
      split_ifs <;> exact hserving
    · rw [if_neg hk]
      exact ⟨inf', hinf', hserving⟩
  · intro key' inf' hinf'
    rcases hget hinf' with hold | ⟨-, hserving, rfl | ⟨hne, hfollowers⟩⟩
    · exact h.apart hold
    · exact h.apart hinf
    · rw [hserving, hfollowers, mem_append, mem_singleton]
      exact fun hmem => hmem.elim (h.apart hinf) hne
  · intro key' inf' f n hinf' hf hn
    rcases hget hinf' with hold | ⟨rfl, -, rfl | ⟨-, hfollowers⟩⟩
    · exact h.waiting hold hf hn
    · exact h.waiting hinf hf hn
    · rw [hfollowers, mem_append, mem_singleton] at hf
      rcases hf with hf | rfl
      · exact h.waiting hinf hf hn
      · exact hpub n hn

theorem serve (h : w.Publication fun _ => False) (hinf : w.inFlight.get? key = none) :
    (w.serve o key).Publication fun _ => False := by
  have hget : ∀ {key' inf}, (w.serve o key).inFlight.get? key' = some inf →
      w.inFlight.get? key' = some inf ∨ inf.followers = [] := by
    intro key' inf hget
    rw [World.serve, get?_insert] at hget
    split_ifs at hget
    · obtain rfl := some.inj hget
      exact .inr rfl
    · exact .inl hget
  refine ⟨h.kept, h.held, h.reported, h.orphaned, ?_, ?_, ?_⟩
  · intro o' key' slot hslot hex hrep
    obtain ⟨inf, hinf', hserving⟩ := h.serving hslot hex hrep
    have hne : key' ≠ key := fun heq => by
      rw [heq, hinf] at hinf'
      cases hinf'
    refine ⟨inf, ?_, hserving⟩
    rw [World.serve, get?_insert, if_neg hne]
    exact hinf'
  · intro key' inf hinf'
    rcases hget hinf' with hold | hnil
    · exact h.apart hold
    · simp [hnil]
  · intro key' inf f n hinf' hf hn
    rcases hget hinf' with hold | hnil
    · exact h.waiting hold hf hn
    · rw [hnil] at hf
      cases hf

variable (h : w.Publication exempt)
include h

theorem withSlot {slot : LandingSlot} (hbooks : w.Books)
    (hlive : w.live o) (hserial : slot.serial = w.serial)
    (hpub : ∀ n, .published n o key ∈ w.log → ¬w.live o)
    (hserving : ∃ inf, w.inFlight.get? key = some inf ∧ inf.servingOp = o) :
    (w.withSlot o key slot).Publication exempt := by
  obtain ⟨hinf, horphans, -, hlog⟩ := @withSlot_rest w o key slot
  have hold := @of_mem_log_withSlot w o key slot
  have hmem := @mem_log_withSlot w o key slot
  refine ⟨?_, ?_, ?_, ?_, ?_, ?_, ?_⟩
  · rw [hlog]
    exact ⟨trivial, h.kept⟩
  · intro n o' key' hn hl
    rw [withSlot_ops.live] at hl
    obtain ⟨hstate, slot', hslot, hserial'⟩ := h.held (hold hn (by simp)) hl
    refine ⟨withSlot_ops.stateOf.trans hstate, slot', ?_, hserial'⟩
    rw [slotOf_withSlot hlive, if_neg]
    · exact hslot
    · rintro ⟨rfl, rfl⟩
      exact hpub n (hold hn (by simp)) hl
  · intro n o' key' peer hn hres
    rw [hlog, mem_cons, Act.reserved.injEq] at hres
    rcases hres with ⟨rfl, -⟩ | hres
    · -- nothing was published under the new serial number
      obtain ⟨peer', hres'⟩ := hbooks.published (hold hn (by simp))
      exact absurd (hbooks.serials hres') (by omega)
    · exact hmem (h.reported (hold hn (by simp)) hres)
  · intro key' orphan hget o' key'' hn
    rw [horphans] at hget
    exact h.orphaned hget o' key'' (hold hn (by simp))
  · intro o' key' slot' hslot hex hrep
    rw [hinf]
    rw [slotOf_withSlot hlive] at hslot
    split_ifs at hslot with heq
    · obtain ⟨rfl, rfl⟩ := heq
      exact hserving
    · exact h.serving hslot hex fun hr => hrep (hmem hr)
  · rw [hinf]
    exact h.apart
  · intro key' inf f n hget hf hn
    rw [hinf] at hget
    rw [withSlot_ops.live]
    exact h.waiting hget hf (hold hn (by simp))

theorem dropSlot (hpub : ∀ n, .published n o key ∈ w.log → ¬w.live o) :
    (w.dropSlot o key).Publication exempt := by
  have hrest : SameRest w (w.dropSlot o key) := dropSlot_rest
  refine ⟨?_, ?_, ?_, ?_, ?_, ?_, ?_⟩
  · rw [hrest.log]
    exact h.kept
  · intro n o' key' hn hl
    rw [hrest.log] at hn
    rw [dropSlot_ops.live] at hl
    rw [dropSlot_ops.stateOf, slotOf_dropSlot, if_neg]
    · exact h.held hn hl
    · rintro ⟨rfl, rfl⟩
      exact hpub n hn hl
  · rw [hrest.log]
    exact h.reported
  · rw [hrest.orphans, hrest.log]
    exact h.orphaned
  · intro o' key' slot hslot
    rw [slotOf_dropSlot] at hslot
    split_ifs at hslot
    rw [hrest.log, hrest.inFlight]
    exact h.serving hslot
  · rw [hrest.inFlight]
    exact h.apart
  · intro key' inf f n
    rw [hrest.inFlight, hrest.log, dropSlot_ops.live]
    exact h.waiting

/-- Nobody fetches the key any longer; its slots have been reported on. -/
theorem eraseInFlight (hrep : ∀ {o slot}, w.slotOf o key = some slot → ¬exempt slot.peer →
      .reported slot.serial slot.peer ∈ w.log) :
    ({ w with inFlight := w.inFlight.erase key } : World).Publication exempt := by
  have hget : ∀ {key' inf}, (w.inFlight.erase key).get? key' = some inf →
      w.inFlight.get? key' = some inf := by
    intro key' inf hget
    rw [get?_erase] at hget
    split_ifs at hget
    exact hget
  refine ⟨h.kept, h.held, h.reported, h.orphaned, ?_, fun hinf => h.apart (hget hinf),
    fun hinf => h.waiting (hget hinf)⟩
  intro o' key' slot hslot hex hunrep
  have hne : key' ≠ key := by
    rintro rfl
    exact hunrep (hrep hslot hex)
  rw [get?_erase, if_neg hne]
  exact h.serving hslot hex hunrep

theorem tell {fs : List OpId} (hfs : ∀ f ∈ fs, ∀ n, .published n f key ∈ w.log → ¬w.live f) :
    (fs.foldl (fun w f => w.setState f key s) w).Publication exempt := by
  refine (foldl_keeps (P := fun v : World => v.Publication exempt ∧
    ∀ f ∈ fs, ∀ n, .published n f key ∈ v.log → ¬v.live f) ⟨h, hfs⟩ fun v f hf hv => ?_).1
  refine ⟨hv.1.setState fun n hn hl => absurd hl (hv.2 f hf n hn), fun f' hf' n hn => ?_⟩
  rw [live_setState]
  exact hv.2 f' hf' n ((mem_log_setState (by simp)).mp hn)

theorem eraseOrphan : ({ w with orphans := w.orphans.erase key } : World).Publication exempt := by
  refine ⟨h.kept, h.held, h.reported, fun hget => ?_, h.serving, h.apart, h.waiting⟩
  rw [get?_erase] at hget
  split_ifs at hget
  exact h.orphaned hget

theorem answer {results : BatchResult} : (w.answer o results).Publication exempt := by
  unfold World.answer
  split
  · have herase : ({ w with callers := w.callers.erase o } : World).Publication exempt :=
      ⟨h.kept, h.held, h.reported, h.orphaned, h.serving, h.apart, h.waiting⟩
    exact herase.record trivial (by simp) (by simp)
  · exact h

theorem free (hn : ∀ o key, .published n o key ∉ w.log) : (w.free n).Publication exempt :=
  h.record hn (by simp) (by simp)

end Publication

/-- **The invariant**, with the books. -/
def Shown (w : World) : Prop := w.Books ∧ w.Publication fun _ => False

/-! ### The end of an operation -/

/-- While an operation is being cleared away, the slots it had not satisfied are unpublished. -/
structure ShownEnding (o : OpId) (op : Operation) (w : World) : Prop where
  books : BooksEnding o op w
  publication : w.Publication fun _ => False
  unpublished : ∀ {key slot}, op.slots.get? key = some slot → op.stateOf key ≠ .satisfied →
    ∀ o' key', .published slot.serial o' key' ∉ w.log

variable {slot : LandingSlot} {from_ peer : PeerId} {exposed : List (OpId × CacheKey × ℕ)}
  {x : OpId × CacheKey × ℕ}

/-- A slot in the table under whose serial number an entry was created belongs to the operation that
created it. -/
theorem Books.owner (h : w.Books) (hslot : w.slotOf o key = some slot)
    (hpub : .published slot.serial o' key' ∈ w.log) : o' = o ∧ key' = key := by
  obtain ⟨peer, hres⟩ := h.published hpub
  obtain ⟨ho, hkey, -⟩ := h.unique (h.slots hslot).1 hres
  exact ⟨ho, hkey⟩

theorem shown_ends (o : OpId) : Ends Shown (ShownEnding o) o where
  drop {w op} hop h := by
    refine ⟨(books_ends o).drop hop h.1, ⟨h.2.kept, ?_, h.2.reported, h.2.orphaned, ?_, h.2.apart,
      fun hinf hf hn hl => h.2.waiting hinf hf hn (live_drop.mp hl).2⟩, ?_⟩
    · intro n o' key hn hl
      obtain ⟨hne, hl⟩ := live_drop.mp hl
      rw [stateOf_drop, slotOf_drop, if_neg hne, if_neg hne]
      exact h.2.held hn hl
    · intro o' key slot hslot
      rw [slotOf_drop] at hslot
      split_ifs at hslot
      exact h.2.serving hslot
    · intro key slot hget hstate o' key' hn
      have hslot : w.slotOf o key = some slot := by
        rw [slotOf, hop]
        exact hget
      obtain ⟨rfl, rfl⟩ := h.1.owner hslot hn
      rw [← stateOf_of_get? hop] at hstate
      exact h.2.unpublished hstate hn (live_of_get? hop)
  release {w op key inf} hinf hserving h := by
    refine ⟨(books_ends o).release hinf hserving h.books,
      h.publication.eraseInFlight fun hslot hex => ?_, h.unpublished⟩
    -- a slot that was not reported on would be one of the operation that has ended
    by_contra hrep
    obtain ⟨inf', hinf', rfl⟩ := h.publication.serving hslot hex hrep
    rw [hinf, some.injEq] at hinf'
    rw [← hinf', hserving] at hslot
    exact h.books.ended (live_of_slotOf hslot)
  reset {w op f key} hstate h := by
    refine ⟨(books_ends o).reset hstate h.books, h.publication.setState fun n hn hl => ?_,
      fun hget hunsat o' key' hn => h.unpublished hget hunsat o' key'
        ((mem_log_setState (by simp)).mp hn)⟩
    exact absurd hl (h.publication.unpublished (by simp [hstate]) hn)
  without {w op} h := by
    have hget : ∀ {key inf}, (w.inFlight.map fun inf : InFlight => inf.without o).get? key = some inf →
        ∃ inf', w.inFlight.get? key = some inf' ∧ inf = inf'.without o := by
      intro key inf hget
      rw [get?_map] at hget
      obtain ⟨inf', hinf', rfl⟩ := map_eq_some_iff.mp hget
      exact ⟨inf', hinf', rfl⟩
    refine ⟨(books_ends o).without h.books, ⟨h.publication.kept, h.publication.held,
      h.publication.reported, h.publication.orphaned, ?_, ?_, ?_⟩, h.unpublished⟩
    · intro o' key slot hslot hex hrep
      obtain ⟨inf, hinf, hserving⟩ := h.publication.serving hslot hex hrep
      refine ⟨inf.without o, ?_, hserving⟩
      rw [get?_map, hinf]
      rfl
    · intro key inf hinf hmem
      obtain ⟨inf', hinf', rfl⟩ := hget hinf
      exact h.publication.apart hinf' (mem_of_mem_filter hmem)
    · intro key inf f n hinf hf
      obtain ⟨inf', hinf', rfl⟩ := hget hinf
      exact h.publication.waiting hinf' (mem_of_mem_filter hf)
  next {w op} h :=
    ⟨(books_ends o).next h.books, h.publication.quiet (Quiet.next w), h.unpublished⟩
  orphan {w op key slot deadline} hget hstate h := by
    refine ⟨(books_ends o).orphan hget hstate h.books, ⟨h.publication.kept, h.publication.held,
      h.publication.reported, fun {key' orphan} hget' => ?_, h.publication.serving,
      h.publication.apart, h.publication.waiting⟩, h.unpublished⟩
    rw [get?_insert] at hget'
    split_ifs at hget'
    · obtain rfl := some.inj hget'
      exact h.unpublished hget hstate
    · exact h.publication.orphaned hget'
  answer h := ⟨(books_ends o).answer h.books, h.publication.answer⟩

theorem closed_shown : Closed Shown where
  quiet hquiet h := ⟨closed_books.quiet hquiet h.1, h.2.quiet hquiet⟩
  follow hlive hstate hinf h := by
    refine ⟨closed_books.follow hlive hstate hinf h.1, ?_⟩
    rw [follow_eq]
    have hpub := fun n => h.2.unpublished hstate (n := n)
    exact (h.2.withFollower hinf hpub).setState fun n hn hl => absurd hl (hpub n hn)
  reserve {w o key slot} hsize hstate hserial horphan hinf h := by
    refine ⟨closed_books.reserve hsize hstate hserial horphan hinf h.1, ?_⟩
    rw [serve_reserve, reserve_eq]
    have hpub := fun n => h.2.unpublished hstate (n := n)
    have hslot : ((w.serve o key).withSlot o key slot).Publication fun _ => False :=
      (h.2.serve hinf).withSlot (h.1.alike Alike.serve) (live_of_sizeOf hsize) hserial hpub
        ⟨⟨o, []⟩, by simp [serve], rfl⟩
    refine hslot.setState fun n hn hl => absurd (withSlot_ops.live.mp hl) (hpub n ?_)
    exact of_mem_log_withSlot (w := w.serve o key) hn (by simp)
  advertise hslot h := ⟨h.1.advertise hslot, h.2.record trivial (by simp) (by simp)⟩
  finalize h := (shown_ends _).finalize h

/-! ### Statuses -/

/-- All slots of the key have been reported on. -/
def AllReported (key : CacheKey) (w : World) : Prop :=
  ∀ o slot, w.slotOf o key = some slot → .reported slot.serial slot.peer ∈ w.log

theorem AllReported.mono (h : AllReported key w)
    (hslots : ∀ {o slot}, w'.slotOf o key = some slot → w.slotOf o key = some slot)
    (hlog : ∀ {n peer}, .reported n peer ∈ w.log → .reported n peer ∈ w'.log) :
    AllReported key w' :=
  fun o slot hslot => hlog (h o slot (hslots hslot))

theorem AllReported.setState (h : AllReported key w) : AllReported key (w.setState o key' s) :=
  h.mono (fun hslot => slotOf_setState.symm.trans hslot) (mem_log_setState (by simp)).mpr

theorem AllReported.record {act : Act} (h : AllReported key w) : AllReported key (w.record act) :=
  h.mono id (mem_cons_of_mem _)

theorem AllReported.dropSlot (h : AllReported key w) : AllReported key (w.dropSlot o key') := by
  refine h.mono (fun hslot => ?_) fun hrep => by rwa [dropSlot_rest.log]
  rw [slotOf_dropSlot] at hslot
  split_ifs at hslot
  exact hslot

/-- While a report on the slot of an operation is being worked on. -/
structure Reporting (o : OpId) (key : CacheKey) (slot : LandingSlot) (w : World) : Prop where
  shown : w.Shown
  holds : w.slotOf o key = some slot
  unpublished : ∀ o' key', .published slot.serial o' key' ∉ w.log
  reported : .reported slot.serial slot.peer ∈ w.log
  serving : ∃ inf, w.inFlight.get? key = some inf ∧ inf.servingOp = o

namespace Reporting

variable {slot : LandingSlot}

section

variable (h : Reporting o key slot w)
include h

theorem allReported : AllReported key w := by
  intro o' slot' hslot'
  by_contra hrep
  obtain ⟨inf, hinf, rfl⟩ := h.shown.2.serving hslot' id hrep
  obtain ⟨inf', hinf', rfl⟩ := h.serving
  rw [hinf, some.injEq] at hinf'
  rw [hinf', h.holds, some.injEq] at hslot'
  exact hrep (hslot' ▸ h.reported)

theorem unheld (n : ℕ) (hn : .published n o key ∈ w.log) : ¬w.live o := by
  intro hlive
  obtain ⟨-, slot', hslot', rfl⟩ := h.shown.2.held hn hlive
  rw [h.holds, some.injEq] at hslot'
  exact h.unpublished o key (hslot' ▸ hn)

theorem observe : Reporting o key slot (w.observe key') := by
  unfold World.observe
  split
  · have hold : ∀ {act : Act} {e}, act ∈ (w.record (.holds key' (entryBytes e))).log →
        (∀ k b, act ≠ .holds k b) → act ∈ w.log := fun hact hne =>
      (mem_cons.mp hact).resolve_left (hne _ _)
    exact ⟨⟨h.shown.1.alike (Alike.record rfl), h.shown.2.record trivial (by simp) (by simp)⟩,
      h.holds, fun o' k' hn => h.unpublished o' k' (hold hn (by simp)),
      mem_cons_of_mem _ h.reported, h.serving⟩
  · exact h

theorem map {map : DispatchMap} {calls : ℕ} : Reporting o key slot { w with map, calls } :=
  ⟨⟨⟨h.shown.1.tracked, h.shown.1.submitted, h.shown.1.serials, h.shown.1.unique, h.shown.1.owned,
      h.shown.1.advertised, h.shown.1.published, h.shown.1.slots, h.shown.1.orphans⟩,
    ⟨h.shown.2.kept, h.shown.2.held, h.shown.2.reported, h.shown.2.orphaned, h.shown.2.serving,
      h.shown.2.apart, h.shown.2.waiting⟩⟩, h.holds, h.unpublished, h.reported, h.serving⟩

/-- The entry is created: the slot is published, and the key is satisfied. -/
theorem publication : ((((w.record (.published slot.serial o key)).releaseWrite env key).record
      (.scheduled key slot.len)).setState o key .satisfied).Publication fun _ => False := by
  obtain ⟨hbooks, hpub⟩ := h.shown
  have hlive : w.live o := live_of_slotOf h.holds
  have htracks : w.tracks o key := hbooks.tracked (hbooks.slots h.holds).2
  generalize hv : ((w.record (.published slot.serial o key)).releaseWrite env key).record
    (.scheduled key slot.len) = v
  have hvlog : v.log = .scheduled key slot.len :: .published slot.serial o key :: w.log := by
    rw [← hv]
    rfl
  have hvops : v.ops = w.ops := by
    rw [← hv]
    rfl
  have hvrest : v.inFlight = w.inFlight ∧ v.orphans = w.orphans := by
    rw [← hv]
    exact ⟨rfl, rfl⟩
  clear hv
  have hslots : ∀ o' key', v.slotOf o' key' = w.slotOf o' key' := fun _ _ => by
    unfold slotOf
    rw [hvops]
  have hlives : ∀ o', v.live o' ↔ w.live o' := fun _ => by
    unfold live
    rw [hvops]
  have hstates : ∀ o' key', v.stateOf o' key' = w.stateOf o' key' := fun _ _ => by
    unfold stateOf
    rw [hvops]
  have hself : (v.setState o key .satisfied).stateOf o key = .satisfied := by
    refine stateOf_setState_self ?_
    unfold tracks
    rw [hvops]
    exact htracks
  have hold : ∀ {act : Act}, (∀ o k b a, act ≠ .turned o k b a) → (∀ k l, act ≠ .scheduled k l) →
      (act ∈ (v.setState o key .satisfied).log ↔
        act = .published slot.serial o key ∨ act ∈ w.log) := fun h₁ h₂ => by
    rw [mem_log_setState h₁, hvlog, mem_cons, mem_cons, or_iff_right (h₂ _ _)]
  refine ⟨?_, ?_, ?_, ?_, ?_, ?_, ?_⟩
  · rw [log_setState, if_pos ((hlives o).mpr hlive), hself, hvlog]
    refine ⟨?_, trivial, trivial, hpub.kept⟩
    cases v.stateOf o key <;> trivial
  · intro n o' key' hn hl
    rw [live_setState, hlives] at hl
    rw [slotOf_setState, hslots]
    rcases (hold (by simp) (by simp)).mp hn with heq | hn'
    · obtain ⟨rfl, rfl, rfl⟩ := Act.published.inj heq
      exact ⟨hself, slot, h.holds, rfl⟩
    · rw [stateOf_setState_of_ne, hstates]
      · exact hpub.held hn' hl
      · by_contra hne
        obtain ⟨rfl, rfl⟩ : o' = o ∧ key' = key := by simpa [not_or] using hne
        exact h.unheld n hn' hl
  · intro n o' key' peer hn hres
    rw [hold (by simp) (by simp)] at hn hres ⊢
    have hres' : .reserved n o' key' peer ∈ w.log := hres.resolve_left (by simp)
    refine .inr ?_
    rcases hn with heq | hn
    · obtain ⟨rfl, rfl, rfl⟩ := Act.published.inj heq
      obtain ⟨-, -, rfl⟩ := hbooks.unique (hbooks.slots h.holds).1 hres'
      exact h.reported
    · exact hpub.reported hn hres'
  · intro key' orphan hget o' key'' hn
    rw [orphans_setState, hvrest.2] at hget
    rcases (hold (by simp) (by simp)).mp hn with heq | hn
    · -- the slot is that of a live operation, an orphan is not
      obtain ⟨hserial, -, -⟩ := Act.published.inj heq
      obtain ⟨o₁, hres, hdead⟩ := hbooks.orphans hget
      rw [hserial] at hres
      obtain ⟨rfl, -, -⟩ := hbooks.unique (hbooks.slots h.holds).1 hres
      exact hdead hlive
    · exact hpub.orphaned hget o' key'' hn
  · intro o' key' slot' hslot hex hrep
    rw [slotOf_setState, hslots] at hslot
    rw [inFlight_setState, hvrest.1]
    exact hpub.serving hslot hex fun hr => hrep ((hold (by simp) (by simp)).mpr (.inr hr))
  · rw [inFlight_setState, hvrest.1]
    exact hpub.apart
  · intro key' inf f n hinf hf hn
    rw [inFlight_setState, hvrest.1] at hinf
    rw [live_setState, hlives]
    rcases (hold (by simp) (by simp)).mp hn with heq | hn
    · -- the operation fetches the key, so it does not wait for it
      obtain ⟨-, rfl, rfl⟩ := Act.published.inj heq
      obtain ⟨inf', hinf', rfl⟩ := h.serving
      rw [hinf, some.injEq] at hinf'
      exact absurd hf (hinf' ▸ hpub.apart hinf)
    · exact hpub.waiting hinf hf hn

end

theorem publishes (env : Env) :
    Publishes env (fun w => w.Shown ∧ AllReported key w) (Reporting o key slot) o key slot where
  meanwhile h := h.map
  observe h := h.observe
  publish {w map} hcreate h := by
    have hseen : Reporting o key slot (({ w with map } : World).observe key) := h.map.observe
    have hall : AllReported key ((({ w with map } : World).observe key).releaseWrite env key) :=
      hseen.allReported
    exact ⟨⟨(books_publishes env).publish hcreate ⟨h.shown.1, h.holds⟩, hseen.publication⟩,
      hall.record.record.setState⟩
  accept {w} hsize h := by
    have hseen : Reporting o key slot (w.observe key) := h.observe
    exact ⟨⟨(books_publishes env).accept hsize ⟨h.shown.1, h.holds⟩,
      hseen.shown.2.setState fun _ _ _ => rfl⟩, hseen.allReported.setState⟩
  reject {w} h := by
    refine ⟨⟨(books_publishes env).reject ⟨h.shown.1, h.holds⟩, ?_⟩,
      h.allReported.dropSlot.record.setState⟩
    have hdrop := (h.shown.2.dropSlot h.unheld).free (n := slot.serial) (by
      rw [dropSlot_rest.log]
      exact h.unpublished)
    refine hdrop.setState fun n hn hl => absurd (dropSlot_ops.live.mp hl) (h.unheld n ?_)
    have hn' := (mem_cons.mp hn).resolve_left (by simp)
    rwa [dropSlot_rest.log] at hn'
  refuse {w} h :=
    ⟨⟨(books_publishes env).refuse ⟨h.shown.1, h.holds⟩,
      h.shown.2.setState fun n hn hl => absurd hl (h.unheld n hn)⟩, h.allReported.setState⟩

end Reporting

/-- A key that could not be fetched, before another attempt. -/
structure Failing (o : OpId) (key : CacheKey) (w : World) : Prop where
  shown : w.Shown
  all : AllReported key w
  unheld : ∀ n, .published n o key ∈ w.log → ¬w.live o
  serving : ∃ inf, w.inFlight.get? key = some inf ∧ inf.servingOp = o

theorem Failing.of_quiet (hquiet : Quiet w w') (h : Failing o key w) : Failing o key w' :=
  ⟨closed_shown.quiet hquiet h.shown, h.all.mono (fun hslot => hquiet.slotOf.symm.trans hslot)
    fun hrep => (by rwa [hquiet.log]), fun n hn hl => h.unheld n (by rwa [← hquiet.log])
    (hquiet.live.mp hl), by
    rw [hquiet.inFlight]
    exact h.serving⟩

theorem Reporting.failed (env : Env) (h : Reporting o key slot w) :
    Failing o key (w.failed from_ o key) := by
  refine Failing.of_quiet (Quiet.updOp (fun _ => rfl) (fun _ => rfl) fun _ => rfl) ?_
  have hreclaim : w.reclaim o key = (w.dropSlot o key).free slot.serial := by
    unfold reclaim
    rw [h.holds]
  rw [hreclaim]
  obtain ⟨hshown, hall⟩ := (Reporting.publishes env).reject h
  refine ⟨hshown, hall, fun n hn hl => ?_, ?_⟩
  · rw [mem_log_setState (by simp)] at hn
    have hn' := (mem_cons.mp hn).resolve_left (by simp)
    rw [dropSlot_rest.log] at hn'
    have hl' : ((w.dropSlot o key).free slot.serial).live o := live_setState.mp hl
    exact h.unheld n hn' (dropSlot_ops.live.mp hl')
  · rw [inFlight_setState]
    show ∃ inf, (w.dropSlot o key).inFlight.get? key = some inf ∧ _
    rw [dropSlot_rest.inFlight]
    exact h.serving

theorem failing_retries : Retries Shown (Failing o key) o key where
  quiet hquiet h := h.of_quiet hquiet
  done h := h.shown
  reserve {w slot} hsize hserial horphan h := by
    have hlive := live_of_sizeOf hsize
    refine ⟨books_retries.reserve hsize hserial horphan h.shown.1, ?_⟩
    have hslot := h.shown.2.withSlot h.shown.1 hlive hserial h.unheld h.serving
    refine (hslot.setState fun n hn hl => absurd hlive (h.unheld n ?_)).record trivial (by simp)
      (by simp)
    exact of_mem_log_withSlot hn (by simp)

/-- An honest and current entry is a report on the slot of its operation. -/
theorem reporting_of_meets {e : StatusEntry} (h : w.Shown) (hhonest : w.Honest from_ o e)
    (hcurrent : w.Current from_ o e) :
    ∃ slot, w.slotOf o e.1 = some slot ∧
      .reported slot.serial slot.peer ∉ w.log ∧ Reporting o e.1 slot (w.reportOn from_ e.2.2) := by
  obtain ⟨key, code, about⟩ := e
  obtain ⟨n, hn, hadv, hrep⟩ := hhonest
  obtain rfl : about = some n := hn
  obtain ⟨slot, hslot, rfl⟩ := map_eq_some_iff.mp hcurrent
  obtain ⟨-, -, rfl⟩ := h.1.unique (h.1.slots hslot).1 (h.1.advertised hadv)
  refine ⟨slot, hslot, hrep, ⟨h.1.alike (Alike.record rfl), h.2.record trivial (by simp)
    (by simp)⟩, hslot, fun o' key' hn => ?_, mem_cons_self .., h.2.serving hslot id hrep⟩
  have hn' : .published slot.serial o' key' ∈ w.log :=
    (mem_cons.mp hn).resolve_left (by simp)
  obtain ⟨rfl, rfl⟩ := h.1.owner hslot hn'
  exact hrep (h.2.reported hn' (h.1.slots hslot).1)

theorem shown_statuses (env : Env) :
    Statuses env Shown (fun w p o e => w.Honest p o e ∧ w.Current p o e)
      (fun w p o e => w.Honest p o e ∧ True) fun outcome => AllReported outcome.1 where
  entry {w from_ o e} hmeets h := by
    obtain ⟨slot, hslot, -, hreporting⟩ := reporting_of_meets h hmeets.1 hmeets.2
    obtain ⟨key, code, about⟩ := e
    have hsuccess := (Reporting.publishes env).publishSuccess hreporting.holds hreporting
    have hrule := @statusEntry_rule env w o key _ _ from_ code about failing_retries hsuccess.1
      (hreporting.failed env)
    obtain ⟨hI, hout⟩ := hrule
    refine ⟨hI, fun outcome hmem => ?_⟩
    obtain ⟨hkey, ⟨hfailing, -⟩ | ⟨heq, -⟩⟩ := hout outcome hmem
    · rw [hkey]
      exact hfailing.all
    · rw [hkey, heq]
      exact hsuccess.2
  keep {w from_ o e outcome} hmeets h hall := by
    obtain ⟨slot, hslot, hrep, -⟩ := reporting_of_meets h hmeets.1 hmeets.2
    have hne : outcome.1 ≠ e.1 := fun heq => hrep (hall o slot (heq ▸ hslot))
    have hbeside : Beside outcome.1 w (w.statusEntry env from_ o e).1 := Beside.statusEntry hne
    exact AllReported.mono hall (fun hs => (hbeside.slots _).symm.trans hs) (hbeside.log _)
  settle {w outcome} h hall := by
    refine ⟨h.1.settle, ?_⟩
    unfold settle
    split
    · exact h.2
    next inf hinf =>
      exact (h.2.eraseInFlight fun hslot _ => hall _ _ hslot).tell fun f hf n hn =>
        h.2.waiting hinf hf hn
  told {w outcome outcome'} _ _ hall := by
    refine settle_keeps (P := AllReported outcome'.1) hall (fun _ _ => ?_)
      fun _ v f _ _ hv => AllReported.setState hv
    exact AllReported.mono hall id id
  late {w from_ o e} _ h := by
    obtain ⟨key, code, about⟩ := e
    have hrep : (w.reportOn from_ about).Publication fun _ => False := by
      cases about with
      | none => exact h.2
      | some n => exact h.2.record trivial (by simp) (by simp)
    refine ⟨h.1.lateEntry, ?_⟩
    unfold lateEntry
    dsimp only
    split
    next orphan hget =>
      split_ifs
      · exact hrep.eraseOrphan.free (hrep.orphaned hget)
      · exact hrep
    · exact hrep

/-! ### Departures -/

/-- The slots exposed to a peer that leaves are unpublished, and so are their keys. -/
def Unpublished (exposed : List (OpId × CacheKey × ℕ)) (w : World) : Prop :=
  ∀ x ∈ exposed, (∀ o key, .published x.2.2 o key ∉ w.log) ∧
    ∀ n, .published n x.1 x.2.1 ∈ w.log → ¬w.live x.1

theorem Unpublished.alike (h : Unpublished exposed w) (halike : Alike w w') :
    Unpublished exposed w' := fun x hx =>
  ⟨fun o key hn => (h x hx).1 o key ((halike.log _ rfl).mp hn),
    fun n hn hl => (h x hx).2 n ((halike.log _ rfl).mp hn) ((halike.live _).mp hl)⟩

/-- While the keys that were to come from a departing peer are being given up. -/
structure Forsaking (peer : PeerId) (exposed : List (OpId × CacheKey × ℕ)) (w : World) : Prop where
  books : w.Books
  publication : w.Publication fun p => p = peer
  unpublished : Unpublished exposed w
  exposes : ∀ {o key slot}, w.slotOf o key = some slot → slot.peer = peer →
    (o, key, slot.serial) ∈ exposed
  exposed : ∀ x ∈ exposed, ∃ slot, w.slotOf x.1 x.2.1 = some slot ∧ slot.peer = peer

theorem Forsaking.setState (h : Forsaking peer exposed w)
    (hpub : ∀ n, .published n o key ∈ w.log → ¬w.live o) :
    Forsaking peer exposed (w.setState o key s) :=
  ⟨h.books.alike Alike.setState, h.publication.setState fun n hn hl => absurd hl (hpub n hn),
    h.unpublished.alike Alike.setState, fun hslot => h.exposes (slotOf_setState.symm.trans hslot),
    fun x hx => by
      simp only [slotOf_setState]
      exact h.exposed x hx⟩

theorem Forsaking.forsake (hx : x ∈ exposed) (h : Forsaking peer exposed w) :
    Forsaking peer exposed (w.forsake x) := by
  have hset : Forsaking peer exposed (w.setState x.1 x.2.1 .unsatisfied) :=
    h.setState (h.unpublished x hx).2
  unfold World.forsake
  dsimp only
  split
  next inf hinf =>
    split_ifs with hserving
    · -- other slots of the key that were not reported on would be served by their own operation
      have herase := @Publication.eraseInFlight _ x.2.1 _ hset.publication fun hslot hex => by
        by_contra hrep
        obtain ⟨inf', hinf', rfl⟩ := hset.publication.serving hslot hex hrep
        rw [hinf, some.injEq] at hinf'
        obtain ⟨slot', hslot', hpeer⟩ := hset.exposed x hx
        rw [← hinf', hserving, hslot', some.injEq] at hslot
        exact hex (hslot ▸ hpeer)
      refine (foldl_keeps (P := fun v : World => Forsaking peer exposed v ∧
        ∀ f ∈ inf.followers, ∀ n, .published n f x.2.1 ∈ v.log → ¬v.live f)
        ⟨⟨hset.books.alike Alike.inFlight, herase, hset.unpublished, hset.exposes, hset.exposed⟩,
          fun f hf n hn => hset.publication.waiting hinf hf hn⟩ fun v f hf hv => ?_).1
      refine ⟨hv.1.setState (hv.2 f hf), fun f' hf' n hn => ?_⟩
      rw [live_setState]
      exact hv.2 f' hf' n ((mem_log_setState (by simp)).mp hn)
    · exact hset
  · exact hset

/-- While the slots exposed to a departed peer are being freed; `exposed` are those left. -/
structure Releasing (peer : PeerId) (exposed : List (OpId × CacheKey × ℕ)) (w : World) : Prop where
  books : w.Books
  publication : w.Publication fun p => p = peer
  unpublished : Unpublished exposed w
  exposes : ∀ {o key slot}, w.slotOf o key = some slot → slot.peer = peer →
    (o, key, slot.serial) ∈ exposed

theorem Publication.teardownPeer {exempt : PeerId → Prop} (h : w.Publication exempt) :
    (w.teardownPeer env peer).Publication exempt := by
  have hsent : (({ w with disconnects := w.disconnects + 1 } : World).record
      (.disconnect peer w.disconnects)).Publication exempt :=
    Publication.record ⟨h.kept, h.held, h.reported, h.orphaned, h.serving, h.apart, h.waiting⟩
      trivial (by simp) (by simp)
  refine foldl_keeps hsent fun v poll _ hv => ?_
  cases poll with
  | disconnectAck node fresh => exact hv.record trivial (by simp) (by simp)
  | empty => exact hv
  | closed => exact hv

theorem Releasing.releaseExposed (h : Releasing peer (x :: exposed) w) :
    Releasing peer exposed (w.releaseExposed x) := by
  obtain ⟨hserial, hkey⟩ := h.unpublished x (mem_cons_self ..)
  have hlog : (w.releaseExposed x).log = .freed x.2.2 :: w.log := by
    show _ :: (w.dropSlot x.1 x.2.1).log = _
    rw [dropSlot_rest.log]
  have hold : ∀ {n o key}, .published n o key ∈ (w.releaseExposed x).log →
      .published n o key ∈ w.log := fun hn => by
    rw [hlog] at hn
    exact (mem_cons.mp hn).resolve_left (by simp)
  refine ⟨h.books.releaseExposed, (h.publication.dropSlot hkey).free ?_, fun y hy => ?_, ?_⟩
  · rw [dropSlot_rest.log]
    exact hserial
  · obtain ⟨hserial', hkey'⟩ := h.unpublished y (mem_cons_of_mem _ hy)
    exact ⟨fun o key hn => hserial' o key (hold hn),
      fun n hn hl => hkey' n (hold hn) (dropSlot_ops.live.mp hl)⟩
  · intro o key slot hslot hpeer
    have hslot' : (w.dropSlot x.1 x.2.1).slotOf o key = some slot := hslot
    rw [slotOf_dropSlot] at hslot'
    split_ifs at hslot' with hne
    refine (mem_cons.mp (h.exposes hslot' hpeer)).resolve_left fun heq => hne ?_
    exact ⟨congrArg Prod.fst heq, congrArg (fun y => y.2.1) heq⟩

theorem Releasing.all (h : Releasing peer exposed w) :
    (exposed.foldl World.releaseExposed w).Shown := by
  induction exposed generalizing w with
  | nil =>
    refine ⟨h.books, h.publication.kept, h.publication.held, h.publication.reported,
      h.publication.orphaned, fun hslot _ hrep => h.publication.serving hslot (fun hpeer => ?_)
      hrep, h.publication.apart, h.publication.waiting⟩
    cases h.exposes hslot hpeer
  | cons x rest ih => exact ih h.releaseExposed

theorem orphans_forsakeAll : (exposed.foldl forsake w).orphans = w.orphans :=
  foldl_keeps (P := fun v : World => v.orphans = w.orphans) rfl
    fun _ _ _ hv => Alike.forsake.orphans.trans hv

theorem orphans_releaseAll : (exposed.foldl releaseExposed w).orphans = w.orphans :=
  foldl_keeps (P := fun v : World => v.orphans = w.orphans) rfl
    fun _ _ _ hv => dropSlot_rest.orphans.trans hv

theorem Shown.releaseOrphans {orphans : List (CacheKey × ℕ)} (h : w.Shown)
    (hunpub : ∀ x ∈ orphans, ∀ o key, .published x.2 o key ∉ w.log) :
    (orphans.foldl releaseOrphan w).Shown := by
  refine (foldl_keeps (P := fun v : World => v.Shown ∧
    ∀ x ∈ orphans, ∀ o key, .published x.2 o key ∉ v.log) ⟨h, hunpub⟩ fun v x hx hv => ?_).1
  refine ⟨⟨hv.1.1.releaseOrphan, hv.1.2.eraseOrphan.free (hv.2 x hx)⟩, fun y hy o key hn => ?_⟩
  exact hv.2 y hy o key ((mem_cons.mp hn).resolve_left (by simp))

theorem Shown.onExit (h : w.Shown)
    (hspared : ∀ x ∈ w.exposedInOps peer, .published x.2.2 x.1 x.2.1 ∉ w.log) :
    (w.onExit env peer).Shown := by
  have hquiet : Quiet w { w with ops := w.ops.map fun op : Operation => op.dropReply peer } :=
    Quiet.dropReplies peer
  unfold World.onExit
  dsimp only
  generalize hv : ({ w with ops := w.ops.map fun op : Operation => op.dropReply peer } : World) = v
    at hquiet ⊢
  have hshown : v.Shown := closed_shown.quiet hquiet h
  have hmem : ∀ {x : OpId × CacheKey × ℕ}, x ∈ v.exposedInOps peer ↔
      ∃ slot, v.slotOf x.1 x.2.1 = some slot ∧ slot.peer = peer ∧ slot.serial = x.2.2 :=
    mem_exposedInOps
  have hunpub : Unpublished (v.exposedInOps peer) v := by
    intro x hx
    obtain ⟨slot, hslot, hpeer, hserial⟩ := hmem.mp hx
    have hnot : .published slot.serial x.1 x.2.1 ∉ v.log := by
      rw [hquiet.log, hserial]
      exact hspared x (mem_exposedInOps.mpr ⟨slot, hquiet.slotOf.symm.trans hslot, hpeer, hserial⟩)
    rw [← hserial]
    refine ⟨fun o key hn => ?_, fun n hn hl => ?_⟩
    · obtain ⟨rfl, rfl⟩ := hshown.1.owner hslot hn
      exact hnot hn
    · obtain ⟨-, slot', hslot', rfl⟩ := hshown.2.held hn hl
      rw [hslot, some.injEq] at hslot'
      exact hnot (hslot' ▸ hn)
  have hforsaking : Forsaking peer (v.exposedInOps peer)
      ((v.exposedInOps peer).foldl forsake v) := by
    refine foldl_keeps ⟨hshown.1, ⟨hshown.2.kept, hshown.2.held, hshown.2.reported,
      hshown.2.orphaned, fun hslot _ => hshown.2.serving hslot id, hshown.2.apart,
      hshown.2.waiting⟩, hunpub, fun hslot hpeer => hmem.mpr ⟨_, hslot, hpeer, rfl⟩, fun x hx => ?_⟩
      fun _ _ hx hu => hu.forsake hx
    obtain ⟨slot, hslot, hpeer, -⟩ := hmem.mp hx
    exact ⟨slot, hslot, hpeer⟩
  refine closed_shown.checkAllCompletions ?_
  split_ifs with hempty
  · rw [Bool.and_eq_true, List.isEmpty_iff] at hempty
    rw [hempty.1]
    exact hshown
  · have hreleasing : Releasing peer (v.exposedInOps peer)
        (((v.exposedInOps peer).foldl forsake v).teardownPeer env peer) :=
      ⟨hforsaking.books.alike Alike.teardownPeer, hforsaking.publication.teardownPeer,
        hforsaking.unpublished.alike Alike.teardownPeer,
        fun hslot => hforsaking.exposes ((Alike.teardownPeer.slots _ _).symm.trans hslot)⟩
    refine Shown.releaseOrphans hreleasing.all fun x hx => ?_
    -- the orphans are still the ones found before the operations were worked on
    obtain ⟨orphan, hget, -, hserial⟩ := mem_exposedOrphans.mp hx
    rw [← hserial]
    have hget' : ((v.exposedInOps peer).foldl releaseExposed
        (((v.exposedInOps peer).foldl forsake v).teardownPeer env peer)).orphans.get? x.1
          = some orphan := by
      rw [orphans_releaseAll, Alike.teardownPeer.orphans, orphans_forsakeAll]
      exact hget
    exact hreleasing.all.2.orphaned hget'

theorem Shown.tickOrphans (h : w.Shown) : (w.tickOrphans env).Shown := by
  refine foldl_keeps (closed_shown.quiet (Quiet.next w) h) fun v peer _ hv => ?_
  unfold reapPeer
  split_ifs
  · exact hv
  · have htorn : (v.teardownPeer env peer).Shown :=
      ⟨hv.1.alike Alike.teardownPeer, hv.2.teardownPeer⟩
    refine htorn.releaseOrphans fun x hx => ?_
    obtain ⟨⟨key, orphan⟩, hmem, rfl⟩ := List.mem_map.mp hx
    rw [mem_filter] at hmem
    exact htorn.2.orphaned (OrdMap.mem_entries.mp hmem.1)

/-! ### Whole runs -/

theorem Shown.enter {entries : List (CacheKey × UInt32)} {n : ℕ} (h : w.Shown)
    (hfresh : w.fresh (.submit o entries n)) : (w.enter env o entries n).Shown := by
  have hnew : ∀ n key, .published n o key ∉ w.log := fun n key hn => by
    obtain ⟨peer, hres⟩ := h.1.published hn
    obtain ⟨entries', hsub⟩ := h.1.owned hres
    exact not_submitted_of_fresh hfresh entries' hsub
  have hold := @of_mem_log_enter env w o entries n
  have hlive : ∀ {n o' key}, .published n o' key ∈ w.log → (w.enter env o entries n).live o' →
      w.live o' := fun hn hl => (live_enter.mp hl).resolve_left fun heq => hnew _ _ (heq ▸ hn)
  refine ⟨h.1.enter hfresh, ⟨trivial, h.2.kept⟩, ?_, ?_, ?_, ?_, h.2.apart, ?_⟩
  · intro m o' key hm hl
    have hm' := hold hm (by simp)
    have hne : o' ≠ o := fun heq => hnew _ _ (heq ▸ hm')
    rw [stateOf_enter, slotOf_enter, if_neg hne, if_neg hne]
    exact h.2.held hm' ((live_enter.mp hl).resolve_left hne)
  · intro m o' key peer hm hres
    exact mem_cons_of_mem _ (h.2.reported (hold hm (by simp)) (hold hres (by simp)))
  · intro key orphan hget o' key' hm
    exact h.2.orphaned hget o' key' (hold hm (by simp))
  · intro o' key slot hslot hex hrep
    rw [slotOf_enter] at hslot
    split_ifs at hslot
    exact h.2.serving hslot hex fun hr => hrep (mem_cons_of_mem _ hr)
  · intro key inf f m hinf hf hm hl
    have hm' := hold hm (by simp)
    have hne : f ≠ o := fun heq => hnew _ _ (heq ▸ hm')
    exact h.2.waiting hinf hf hm' ((live_enter.mp hl).resolve_left hne)

theorem Shown.callerGivesUp (h : w.Shown) : (w.callerGivesUp o).Shown := by
  refine ⟨h.1.alike Alike.callerGivesUp, ?_⟩
  unfold World.callerGivesUp
  split
  · exact h.2.answer
  · exact h.2

theorem Shown.stop (h : w.Shown) : w.stop.Shown := by
  have hall : (w.callers.keys.foldl World.callerGivesUp w).Shown :=
    foldl_keeps h fun _ _ _ hv => hv.callerGivesUp
  exact ⟨h.1.stop, hall.2.kept, fun _ hl => (by cases hl), hall.2.reported, hall.2.orphaned,
    fun hslot => (by cases hslot), hall.2.apart, fun _ _ _ hl => (by cases hl)⟩

theorem shown_handle {e : Event} (hfresh : w.fresh e = true) (hhonest : w.HonestPeers (e, env))
    (hspared : w.Spared (e, env)) (hcalls : w.calls = 0) (h : w.Shown) : (handle env w e).Shown := by
  have hw : ({ w with calls := 0 } : World) = w := by rw [← hcalls]
  cases e with
  | submit o entries n =>
    exact onSubmit_rule closed_shown
      (fun hv => ⟨hv.1.alike (Alike.record rfl), hv.2.record trivial (by simp) (by simp)⟩)
      (h.enter hfresh)
  | keyResponse from_ o entries => exact closed_shown.onKeyResponse h
  | rdmaStatus from_ o entries =>
    have hmeets := StatusMeets.and hhonest hspared
    rw [hw] at hmeets
    exact (shown_statuses env).onRdmaStatus closed_shown hmeets h
  | exit peer => exact h.onExit hspared
  | tickDeadlines => exact closed_shown.tickDeadlines h
  | tickOrphans => exact h.tickOrphans
  | callerGivesUp o => exact h.callerGivesUp
  | shutdown =>
    have hall : ((arrange (env.order w.calls) w.ops.keys).foldl (finalize env)
        w.next).Shown :=
      foldl_keeps (closed_shown.quiet (Quiet.next w) h) fun _ _ _ hv => closed_shown.finalize hv
    exact ⟨hall.1.alike Alike.halted, ⟨hall.2.kept, hall.2.held, hall.2.reported, hall.2.orphaned,
      hall.2.serving, hall.2.apart, hall.2.waiting⟩⟩
  | stop => exact h.stop

theorem shown_new (config : LookupConfig) (map : DispatchMap) : (new config map).Shown := by
  refine ⟨books_new config map, trivial, ?_, ?_, ?_, ?_, ?_, ?_⟩ <;> exact fun h => (by cases h)

/-- **Published slots are kept**: as long as peers report once on each slot they were asked to fill,
statuses of live operations are about the slots these hold, and no peer leaves while a slot that it
filled is published and its operation still runs, no slot on which an entry was created is freed and
no key turns from satisfied to unsatisfied in the operation that published it. -/
theorem published_kept {config : LookupConfig} {map : DispatchMap} {es : List (Event × Env)}
    (hrun : Run step (fun w e => w.HonestPeers e ∧ w.Spared e) (new config map) es w) :
    Throughout KeepsPublished w.log := by
  refine (Run.invariant (I := Shown) (shown_new config map) (fun v e u hv hok hstep => ?_) hrun).2.kept
  obtain ⟨hfresh, rfl⟩ := step_eq_some hstep
  obtain ⟨e, env⟩ := e
  have hv' : ({ v with calls := 0 } : World).Shown := closed_shown.quiet (Quiet.calls 0) hv
  refine shown_handle hfresh ?_ ?_ rfl hv'
  · cases e <;> exact hok.1
  · cases e <;> exact hok.2

/-! ### Two keys from one peer -/

/-- The settings of the examples. -/
def sampleConfig : LookupConfig := ⟨50, 10, 100, 50, 2, 256⟩

/-- A memory tier that always has room. -/
def sampleEnv : Env := { insert := fun i => some (4096 * i) }

/-- A responder that acknowledges each `Disconnect` at once. -/
def prompt : Env := { sampleEnv with polls := fun peer => [.disconnectAck peer true] }

/-- An operation asks for two keys, one peer has both in memory and reports on the first. -/
def twoKeys : List (Event × Env) :=
  [(.submit 0 [(1, 4096), (2, 4096)] 2, sampleEnv),
    (.keyResponse 7 0 [(1, 4096, .memory), (2, 4096, .memory)], sampleEnv),
    (.rdmaStatus 7 0 [(1, .success, some 0)], sampleEnv)]

/-- A run in which the peer stays until the operation has ended. -/
theorem published_kept_twoKeys : ∃ w, Run step (fun w e => w.HonestPeers e ∧ w.Spared e)
      (new sampleConfig DispatchMap.empty)
      (twoKeys ++ [(.rdmaStatus 7 0 [(2, .keyNoLongerAvailable, some 1)], sampleEnv),
        (.exit 8, prompt), (.tickDeadlines, { sampleEnv with now := fun _ => 100 }),
        (.exit 7, prompt)]) w ∧
      (.published 0 0 1 ∈ w.log ∧ .freed 1 ∈ w.log) ∧ Throughout KeepsPublished w.log := by
  refine exists_run_and_of_checkedExec
    (fun w => decide (.published 0 0 1 ∈ w.log ∧ .freed 1 ∈ w.log)) (by decide +kernel)
    fun hrun hw => ?_
  exact ⟨of_decide_eq_true hw, published_kept hrun⟩

/-- The first slot was freed after it was published. -/
def freedPublished : List Act → Bool
  | .freed 0 :: past => decide (.published 0 0 1 ∈ past)
  | _ => false

/-- **A departing peer takes published slots with it**: when the peer that filled the first key leaves
before it has reported on the second, `onExit` finds the published slot in the table of the
operation, turns its key back to unsatisfied and frees the slot. -/
theorem published_freed_on_exit :
    ∃ w, Run step HonestPeers (new sampleConfig DispatchMap.empty)
      (twoKeys ++ [(.exit 7, prompt)]) w ∧ ¬Throughout KeepsPublished w.log := by
  refine exists_run_and_of_checkedExec (fun w => w.log.tails.any freedPublished)
    (by decide +kernel) fun hrun hw hkept => ?_
  obtain ⟨log, hlog, hfreed⟩ := List.any_eq_true.mp hw
  unfold freedPublished at hfreed
  split at hfreed
  next past =>
    have hallowed : KeepsPublished past (.freed 0) := hkept.of_suffix ((mem_tails _ _).mp hlog)
    exact hallowed 0 1 (of_decide_eq_true hfreed)
  next => cases hfreed

end World

end Certus.RemoteLookup
