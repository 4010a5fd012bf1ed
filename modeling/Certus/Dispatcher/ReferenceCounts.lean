import Certus.Dispatcher.RefDiscipline

/-! # Read references are exact

The read references of an entry are those of the lookups and client pins in progress, and that of its
write-through pin. The count is exact along the runs in which no procedure drops a reference it does
not hold, and in which the ledger and the map do not get out of step: a job without a pin settles
only where there is no reference to drop, the entry of a pin that is being taken over is left alone,
and a pin is recorded only when no older job of the key is still running.

* **`readRef_eq_held`** — the count is exact along such runs, and no entry with a reader is demoted
  or removed. -/

namespace Certus.Dispatcher

open MemoryTier Prog List DispatchMap Thread Refs MapCall KeyView
open Bool (toNat_le toNat_false toNat_true)

/-! ## Tallies -/

/-- What procedures hold of the references of a key: their lookups, and how many play which role. -/
structure Tally where
  reads : ℕ
  writes : ℕ
  stored : ℕ
  takes : ℕ
  dropped : ℕ
  cleared : ℕ
  owned : ℕ
  settling : ℕ
  locks : ℕ
  deriving DecidableEq, Repr

open Tally

/-- One if the procedure plays the role. -/
def Refs.plays (r : RefRole) (g : Refs) : ℕ := if g.role = r then 1 else 0

/-- What one procedure holds. -/
def Refs.tally (g : Refs) : Tally where
  reads := g.reads
  writes := g.plays .writes
  stored := g.plays .stored
  takes := g.plays .takes
  dropped := g.plays .dropped
  cleared := g.plays .cleared
  owned := g.plays .owned
  settling := g.plays .settling
  locks := g.locks.toNat

/-- Two parties together. -/
def Tally.add (m n : Tally) : Tally where
  reads := m.reads + n.reads
  writes := m.writes + n.writes
  stored := m.stored + n.stored
  takes := m.takes + n.takes
  dropped := m.dropped + n.dropped
  cleared := m.cleared + n.cleared
  owned := m.owned + n.owned
  settling := m.settling + n.settling
  locks := m.locks + n.locks

/-- The fields of one procedure together with the others. -/
theorem tally_add (g : Refs) (o : Tally) : g.tally.add o =
    let n r := if g.role = r then 1 else 0
    ⟨g.reads + o.reads, n .writes + o.writes, n .stored + o.stored, n .takes + o.takes,
      n .dropped + o.dropped, n .cleared + o.cleared, n .owned + o.owned, n .settling + o.settling,
      g.locks.toNat + o.locks⟩ := rfl

/-- All procedures together. -/
def tally (gs : List Refs) : Tally where
  reads := total (·.tally.reads) gs
  writes := total (·.tally.writes) gs
  stored := total (·.tally.stored) gs
  takes := total (·.tally.takes) gs
  dropped := total (·.tally.dropped) gs
  cleared := total (·.tally.cleared) gs
  owned := total (·.tally.owned) gs
  settling := total (·.tally.settling) gs
  locks := total (·.tally.locks) gs

section Tally

variable {gs : List Refs} {i : ℕ} {g : Refs}

theorem tally_eq_add (h : gs[i]? = some g) : tally gs = g.tally.add (tally (gs.eraseIdx i)) := by
  unfold tally add
  congr 1 <;> exact total_eraseIdx h

theorem tally_set (h : gs[i]? = some g) (g' : Refs) :
    tally (gs.set i g') = g'.tally.add (tally (gs.eraseIdx i)) := by
  unfold tally add
  congr 1 <;> exact total_set h g'

theorem tally_concat_idle (gs : List Refs) : tally (gs ++ [({} : Refs)]) = tally gs := by
  unfold tally
  congr 1 <;> exact total_append ..

end Tally

/-- A procedure that takes a pin over or settles it holds the ledger. -/
def Refs.Sound (g : Refs) : Prop :=
  g.role = .takes ∨ g.role = .dropped ∨ g.role = .cleared ∨ g.role = .settling → g.locks

/-- The roles that hold the ledger. -/
def Tally.ledger (n : Tally) : ℕ := n.takes + n.dropped + n.cleared + n.settling

variable {g : Refs} {gs : List Refs} {e : DispatchEntry} {v v' : KeyView} {c : Call} {i : ℕ}
  {k : CacheKey} {o : Oracle}

theorem Refs.Sound.ledger_le (h : g.Sound) : g.tally.ledger ≤ g.tally.locks := by
  obtain ⟨reads, role, locks⟩ := g
  cases role
  case takes | dropped | cleared | settling =>
    obtain rfl : locks := h (by simp)
    exact Nat.le_refl 1
  all_goals exact Nat.zero_le _

theorem ledger_le_locks (h : ∀ g ∈ gs, g.Sound) : (tally gs).ledger ≤ (tally gs).locks := by
  have hsum : (tally gs).ledger = total (·.tally.ledger) gs := by
    clear h
    induction gs with
    | nil => rfl
    | cons g gs ih =>
      simp only [tally, ledger, total_cons] at ih ⊢
      omega
  rw [hsum]
  exact total_le_total fun g hg => (h g hg).ledger_le

/-! ## The books of a key -/

/-- The read references of the entry, if there is one. -/
def KeyView.readRef (v : KeyView) : ℕ := (v.entry.map DispatchEntry.readRef).getD 0

/-- The write reference of the entry, if there is one. -/
def KeyView.writeRef (v : KeyView) : ℕ := (v.entry.map DispatchEntry.writeRef).getD 0

/-- The entry is in the memory tier and was not written through. -/
def KeyView.Unwritten (v : KeyView) : Prop :=
  ∃ e p n, v.entry = some e ∧ e.location = .memoryTier p n none

/-- **The books of a key**: the read references `r` and the write reference `w` of the entry, its pin
state and the lock of the ledger, against what the procedures hold. -/
@[mk_iff]
structure Balanced (r w : ℕ) (p : PinState) (locked : Bool) (n : Tally) : Prop where
  exact : r + n.dropped + n.cleared = n.reads + n.stored + n.settling + p.pinned.toNat
  /-- An entry has one write-through at most: that of its store, of its pin or of its job. -/
  single : n.writes + n.stored + n.settling + p.pinned.toNat ≤ 1 + n.cleared
  writer : w = n.writes ∧ (n.writes ≠ 0 → r = 0)
  /-- A pin that was dropped can be taken back. -/
  room : r + n.dropped ≤ maxRef
  taken : n.takes + n.dropped + n.cleared ≤ p.pinned.toNat
  lock : n.locks ≤ locked.toNat
  jobs : n.owned = p.running.toNat
  queued : p.queued.toNat ≤ p.pinned.toNat ∧ p.queued.toNat + p.running.toNat ≤ 1
  running : p.running.toNat ≤ p.pinned.toNat + p.removed.toNat
  removed : p.removed.toNat ≤ p.running.toNat ∧ p.removed.toNat + p.pinned.toNat ≤ 1

/-- The write-through of the entry is under way: it is that of its store, of its pin or of its
job. -/
def Pending (p : PinState) (n : Tally) : Prop :=
  n.writes + n.stored + n.settling + p.pinned.toNat = 1 + n.cleared

/-- The invariant of a key: its books are balanced, and an entry whose write-through is under way
was not written through. -/
structure RefInv (v : KeyView) (locked : Bool) (n : Tally) : Prop where
  books : Balanced v.readRef v.writeRef v.pin locked n
  unwritten : Pending v.pin n → v.Unwritten

/-- What a call about the key asks of the others: a job without a pin settles only an entry that is
not referenced and whose pin is not being taken over; an entry whose pin is being taken over is not
removed, and lookups leave room for the pin to be taken back; a removal flips an entry only when no
one else references it; a pin is recorded only when no job of the key is running. -/
def Accounted (v : KeyView) (g : Refs) (others : Tally) : Call → Prop
  | .map (.lookup _) | .map (.takeRead _) =>
    others.dropped ≠ 0 → v.readRef + 1 < maxRef
  | .map (.remove _) => others.dropped = 0
  | .map (.convertToStorage _ _) =>
    g.role = .untracked → others.dropped = 0 ∧ v.readRef = 0 ∧ v.writeRef = 0
  | .map (.releaseRead _) => g.role = .untracked → v.readRef = 0
  | .map (.convertMemoryTierToBlock _) =>
    ∀ e ∈ v.entry, e.location.demoted ≠ e.location → e.readRef ≤ 1
  | .pins (.pin _) => v.pin.running = false
  | _ => True

/-! ## Entries of the books -/

namespace Balanced

/-- The books with the share of one procedure set apart. -/
abbrev Apart (r w : ℕ) (p : PinState) (locked : Bool) (g : Refs) (o : Tally) : Prop :=
  Balanced r w p locked (g.tally.add o)

variable {r w : ℕ} {p : PinState} {locked : Bool} {o : Tally} {reads : ℕ} {l : Bool}

theorem read {role : RefRole} (h : Apart r w p locked ⟨reads, role, l⟩ o)
    (hw : w = 0) (hroom : r + 1 + ((⟨reads, role, l⟩ : Refs).tally.add o).dropped ≤ maxRef) :
    Apart (r + 1) w p locked ⟨reads + 1, role, l⟩ o := by
  simp only [balanced_iff, tally_add] at *
  omega

theorem unread (h : Apart r w p locked ⟨reads, .none, l⟩ o) (hreads : 0 < reads) :
    0 < r ∧ Apart (r - 1) w p locked ⟨reads - 1, .none, l⟩ o := by
  simp only [balanced_iff, tally_add, reduceCtorEq, if_false] at *
  omega

/-- A removal drops the reference of the pin it takes over. -/
theorem drop (h : Apart r w p locked ⟨reads, .takes, l⟩ o) (ho : o.ledger = 0) :
    0 < r ∧ Apart (r - 1) w p locked ⟨reads, .dropped, l⟩ o := by
  have hpinned := toNat_le p.pinned
  simp only [balanced_iff, tally_add, ledger, reduceCtorEq, if_false, if_true] at *
  omega

theorem takeBack (h : Apart r w p locked ⟨reads, .dropped, l⟩ o) (ho : o.ledger = 0) :
    w = 0 ∧ r < maxRef ∧ Apart (r + 1) w p locked ⟨reads, .takes, l⟩ o := by
  have hpinned := toNat_le p.pinned
  simp only [balanced_iff, tally_add, ledger, reduceCtorEq, if_false, if_true] at *
  omega

theorem settle (h : Apart r w p locked ⟨reads, .settling, l⟩ o) (ho : o.ledger = 0) :
    0 < r ∧ Apart (r - 1) w p locked ⟨reads, .none, l⟩ o := by
  have hpinned := toNat_le p.pinned
  simp only [balanced_iff, tally_add, ledger, reduceCtorEq, if_false, if_true] at *
  omega

theorem create (h : Apart 0 0 p locked ⟨reads, .none, l⟩ o)
    (hfree : o.writes + o.stored + o.settling + p.pinned.toNat ≠ 1 + o.cleared) :
    Apart 0 1 p locked ⟨reads, .writes, l⟩ o := by
  simp only [balanced_iff, tally_add, reduceCtorEq, if_false, if_true, implies_true, and_true] at *
  omega

section

variable (h : Apart r w p locked ⟨reads, .writes, l⟩ o)
include h

theorem publish : w ≠ 0 ∧ Apart r 0 p locked ⟨reads, .none, l⟩ o := by
  have hpinned := toNat_le p.pinned
  simp only [balanced_iff, tally_add, reduceCtorEq, if_false, if_true] at *
  omega

/-- A writer turns its write reference into that of a pin. -/
theorem downgrade : w ≠ 0 ∧ r = 0 ∧ Apart (r + 1) 0 p locked ⟨reads, .stored, l⟩ o := by
  have hpinned := toNat_le p.pinned
  have hmax : maxRef = 2 ^ 32 - 1 := rfl
  simp only [balanced_iff, tally_add, reduceCtorEq, if_false, if_true] at *
  omega

end

/-- A removal whose entry had the pin as its only reference. -/
theorem clear (h : Apart 0 0 p locked ⟨reads, .dropped, l⟩ o) :
    Apart 0 0 p locked ⟨reads, .cleared, l⟩ o := by
  simp only [balanced_iff, tally_add, reduceCtorEq, if_false, if_true] at *
  omega

theorem pin {enqueued : Bool} (h : Apart r w p false ⟨reads, .stored, l⟩ o)
    (ho : o.ledger ≤ o.locks) (hrunning : p.running = false) :
    Apart r w { p with pinned := true, queued := enqueued } false ⟨reads, .none, l⟩ o := by
  have henqueued := toNat_le enqueued
  simp only [balanced_iff, tally_add, ledger, reduceCtorEq, if_false,
    if_true, hrunning, toNat_false, toNat_true] at *
  omega

theorem start (h : Apart r w p locked ⟨reads, .none, l⟩ o) (hqueued : p.queued) :
    Apart r w { p with queued := false, running := true } locked ⟨reads, .owned, l⟩ o := by
  have hpinned := toNat_le p.pinned
  simp only [balanced_iff, tally_add, reduceCtorEq, if_false, if_true,
    hqueued, toNat_false, toNat_true] at *
  omega

section

variable (h : Apart r w p false ⟨reads, .owned, false⟩ o)
include h

theorem finish (ho : o.ledger ≤ o.locks) (hremoved : p.removed = false) :
    Apart r w { p with running := false, pinned := false, removed := false } true
      ⟨reads, .settling, true⟩ o := by
  have hpinned := toNat_le p.pinned
  have hrunning := toNat_le p.running
  simp only [balanced_iff, tally_add, ledger, reduceCtorEq, if_false,
    if_true, hremoved, toNat_false, toNat_true] at *
  omega

theorem finishRemoved (hremoved : p.removed) :
    Apart r w { p with running := false, pinned := false, removed := false } true ⟨reads, .none, true⟩ o := by
  have hrunning := toNat_le p.running
  simp only [balanced_iff, tally_add, reduceCtorEq, if_false, if_true,
    hremoved, toNat_false, toNat_true] at *
  omega

end

theorem takeOver (h : Apart r w p false ⟨reads, .none, false⟩ o)
    (ho : o.ledger ≤ o.locks) (hpinned : p.pinned) : Apart r w p true ⟨reads, .takes, true⟩ o := by
  simp only [balanced_iff, tally_add, ledger, reduceCtorEq, if_false,
    if_true, hpinned, toNat_false, toNat_true] at *
  omega

/-- A removal takes the pin out of the ledger, together with its job. -/
theorem tookOver {stale : ℕ} (h : Apart r w p locked ⟨reads, .cleared, true⟩ o)
    (ho : o.ledger ≤ o.locks) :
    Apart r w ⟨false, false, p.running, p.running, stale⟩ false ⟨reads, .none, false⟩ o := by
  have hpinned := toNat_le p.pinned
  have hrunning := toNat_le p.running
  have hlocked := toNat_le locked
  simp only [balanced_iff, tally_add, ledger, reduceCtorEq, if_false,
    if_true, toNat_false, toNat_true] at *
  omega

variable {role : RefRole} {n : Tally} {p' : PinState}

theorem unlock (hrole : role = .none ∨ role = .takes)
    (h : Apart r w p locked ⟨reads, role, true⟩ o) : Apart r w p false ⟨reads, .none, false⟩ o := by
  have hlocked := toNat_le locked
  rcases hrole with rfl | rfl
  all_goals
    simp only [balanced_iff, tally_add, reduceCtorEq, if_false, if_true,
      toNat_false, toNat_true] at *
    omega

theorem acquire (h : Apart r w p false ⟨reads, role, l⟩ o) :
    Apart r w p true ⟨reads, role, true⟩ o := by
  simp only [balanced_iff, tally_add, toNat_false, toNat_true] at *
  omega

/-- What the ledger forgets of an idle key does not matter. -/
theorem forget (h : Balanced r w p locked n) (hforget : p.Forgets p') :
    Balanced r w p' locked n := by
  rcases hforget with rfl | ⟨hidle, rfl⟩
  · exact h
  · obtain ⟨pinned, queued, running, removed, stale⟩ := p
    simp only [PinState.idle, Bool.and_eq_true, Bool.not_eq_true', decide_eq_true_eq] at hidle
    obtain ⟨⟨⟨rfl, rfl⟩, rfl⟩, rfl⟩ := hidle
    simp only [balanced_iff, toNat_false] at *
    omega

/-- The books do not look at the jobs whose pin was released. -/
theorem stale (h : Balanced r w p locked n) (hp : p' = { p with stale := p'.stale }) :
    Balanced r w p' locked n := by
  rw [hp]
  exact ⟨h.exact, h.single, h.writer, h.room, h.taken, h.lock, h.jobs, h.queued, h.running,
    h.removed⟩

end Balanced

/-! ## Calls of the dispatch map -/

theorem readRef_some (h : v.entry = some e) : v.readRef = e.readRef := by simp [readRef, h]

theorem writeRef_some (h : v.entry = some e) : v.writeRef = e.writeRef := by simp [writeRef, h]

theorem readRef_none (h : v.entry = none) : v.readRef = 0 := by
  simp [readRef, h]

theorem writeRef_none (h : v.entry = none) : v.writeRef = 0 := by
  simp [writeRef, h]

namespace RefInv

variable {v v' : KeyView} {locked : Bool} {o : Tally} {g : Refs}

theorem same (h : RefInv v locked (g.tally.add o)) (hentry : v'.entry = v.entry)
    (hpin : v'.pin = v.pin) : RefInv v' locked (g.tally.add o) := by
  obtain ⟨entry, slot, pin⟩ := v
  obtain ⟨entry', slot', pin'⟩ := v'
  obtain rfl : entry' = entry := hentry
  obtain rfl : pin' = pin := hpin
  exact ⟨h.books, h.unwritten⟩

variable {e e' : DispatchEntry} {n n' : Tally} {k : CacheKey} {a : Except DispatchMapError Unit}
  {locked' writer : Bool} {p p' : PinState}

/-- A call that moves an entry which is not waiting for its write-through. -/
theorem moved (h : RefInv v locked (g.tally.add o)) (he : v.entry = some e)
    (he' : v'.entry = some e') (hpin : v'.pin = v.pin) (hread : e'.readRef = e.readRef)
    (hwrite : e'.writeRef = e.writeRef) (hloc : ∀ p n, e.location ≠ .memoryTier p n none) :
    RefInv v' locked (g.tally.add o) := by
  refine ⟨?_, fun hpending => ?_⟩
  · rw [readRef_some he', writeRef_some he', hread, hwrite, hpin, ← readRef_some he,
      ← writeRef_some he]
    exact h.books
  · rw [hpin] at hpending
    obtain ⟨x, p, n, hx, hx'⟩ := h.unwritten hpending
    rw [he] at hx
    cases hx
    exact absurd hx' (hloc p n)

/-- A call that changes the references of an entry, and leaves it where it is. -/
theorem counted (h : RefInv v locked n) (he : v.entry = some e) (he' : v'.entry = some e')
    (hpin : v'.pin = v.pin) (hloc : e'.location = e.location)
    (hbooks : Balanced e'.readRef e'.writeRef v.pin locked n')
    (hpending : Pending v.pin n' → Pending v.pin n) : RefInv v' locked n' := by
  refine ⟨?_, fun hp => ?_⟩
  · rw [readRef_some he', writeRef_some he', hpin]
    exact hbooks
  · rw [hpin] at hp
    obtain ⟨x, p, m, hx, hx'⟩ := h.unwritten (hpending hp)
    rw [he] at hx
    cases hx
    exact ⟨e', p, m, he', hloc.trans hx'⟩

theorem idle (hbooks : Balanced v.readRef v.writeRef v.pin locked n)
    (hpending : ¬ Pending v.pin n) : RefInv v locked n :=
  ⟨hbooks, fun h => absurd h hpending⟩

theorem exists_entry (h : v.readRef ≠ 0 ∨ v.writeRef ≠ 0) : ∃ e, v.entry = some e := by
  cases he : v.entry with
  | none => simp [readRef, writeRef, he] at h
  | some e => exact ⟨e, rfl⟩

/-- Who takes a pin over or settles it is the only one to do so. -/
theorem alone (h : RefInv v locked (g.tally.add o)) (hlocks : g.locks)
    (ho : o.ledger ≤ o.locks) : o.ledger = 0 := by
  have hlock := h.books.lock
  have hlocked := toNat_le locked
  simp only [add, Refs.tally, hlocks, toNat_true] at hlock
  omega

theorem step_read {reads : ℕ} {l : Bool}
    (h : RefInv v locked ((⟨reads, .none, l⟩ : Refs).tally.add o)) (he : v.entry = some e)
    (hwrite : e.writeRef = 0) (hroom : e.readRef < maxRef)
    (hx : o.dropped ≠ 0 → v.readRef + 1 < maxRef)
    (he' : v'.entry = some { e with readRef := e.readRef + 1 }) (hpin : v'.pin = v.pin) :
    RefInv v' locked ((⟨reads + 1, .none, l⟩ : Refs).tally.add o) := by
  have hbooks := h.books
  rw [readRef_some he, writeRef_some he] at hbooks
  rw [readRef_some he] at hx
  refine h.counted he he' hpin rfl (hbooks.read hwrite ?_) id
  have htaken := hbooks.taken
  have hpinned := toNat_le v.pin.pinned
  simp only [tally_add, reduceCtorEq, if_false] at htaken ⊢
  omega

section

variable (h : RefInv v locked (g.tally.add o)) (hpin : v'.pin = v.pin)
include h hpin

theorem step_lookup {a : Except DispatchMapError LookupResult}
    (hrole : g.role = .none) (hx : o.dropped ≠ 0 → v.readRef + 1 < maxRef)
    (heff : (MapCall.lookup k).Effect a v.entry v'.entry) :
    RefInv v' locked ((g.afterMap (.lookup k) a).tally.add o) := by
  obtain ⟨reads, role, l⟩ := g
  obtain rfl : role = .none := hrole
  rcases heff with ⟨rfl, hv, hv'⟩ | ⟨⟨err, rfl⟩, hentry⟩ | ⟨e, he, ⟨hwrite, hroom⟩, rfl, he'⟩
  · exact h.same (hv'.trans hv.symm) hpin
  · exact h.same hentry hpin
  · have hread := h.step_read he hwrite hroom hx he' hpin
    cases e.location <;> exact hread

theorem step_takeRead (hsound : g.Sound)
    (ho : o.ledger ≤ o.locks) (hrole : g.role = .dropped ∨ g.role = .none)
    (hx : o.dropped ≠ 0 → v.readRef + 1 < maxRef) (heff : (takeRead k).Effect a v.entry v'.entry) :
    (g.role = .dropped → a = .ok ()) ∧
      RefInv v' locked ((g.afterMap (.takeRead k) a).tally.add o) := by
  obtain ⟨reads, role, l⟩ := g
  rcases hrole with rfl | rfl
  · -- the pin was taken from this very entry, which nobody may have removed
    have halone := h.alone (hsound (.inr (.inl rfl))) ho
    obtain ⟨hw, hr, hbooks⟩ := h.books.takeBack halone
    obtain ⟨e, p, n, he, hloc⟩ := h.unwritten (by
      have htaken := h.books.taken
      have hsingle := h.books.single
      have hpinned := toNat_le v.pin.pinned
      simp only [Pending, tally_add, ledger, reduceCtorEq, if_false, if_true] at *
      omega)
    rw [writeRef_some he] at hw hbooks
    rw [readRef_some he] at hr hbooks
    rcases heff with ⟨-, -, hguard⟩ | ⟨rfl, x, hx', -, he'⟩
    · exact absurd ⟨hw, hr⟩ (hguard e he)
    · rw [he] at hx'
      cases hx'
      exact ⟨fun _ => rfl, h.counted he he' hpin rfl hbooks id⟩
  · refine ⟨nofun, ?_⟩
    rcases heff with ⟨⟨err, rfl⟩, hentry, -⟩ | ⟨rfl, e, he, ⟨hwrite, hroom⟩, he'⟩
    · exact h.same hentry hpin
    · exact h.step_read he hwrite hroom hx he' hpin

theorem step_unread (hbooks : 0 < v.readRef ∧ Balanced (v.readRef - 1) v.writeRef v.pin locked n')
    (hpending : Pending v.pin n' → Pending v.pin (g.tally.add o))
    (heff : (releaseRead k).Effect a v.entry v'.entry) : a = .ok () ∧ RefInv v' locked n' := by
  obtain ⟨hr, hbooks⟩ := hbooks
  obtain ⟨e, he⟩ := exists_entry (.inl (Nat.pos_iff_ne_zero.mp hr))
  rw [readRef_some he] at hr
  rw [readRef_some he, writeRef_some he] at hbooks
  rcases heff with ⟨-, -, hguard⟩ | ⟨rfl, x, hx, -, he'⟩
  · exact absurd (Nat.pos_iff_ne_zero.mp hr) (hguard e he)
  · rw [he] at hx
    cases hx
    exact ⟨rfl, h.counted he he' hpin rfl hbooks hpending⟩

theorem step_releaseRead (hsound : g.Sound)
    (ho : o.ledger ≤ o.locks) (hallows : g.Allows (.map (.releaseRead k)))
    (hx : g.role = .untracked → v.readRef = 0) (heff : (releaseRead k).Effect a v.entry v'.entry) :
    (g.role = .untracked ∨ a = .ok ()) ∧
      RefInv v' locked ((g.afterMap (.releaseRead k) a).tally.add o) := by
  obtain ⟨reads, role, l⟩ := g
  rcases hallows with rfl | rfl | rfl | ⟨rfl, hreads⟩
  · obtain ⟨rfl, hinv⟩ :=
      h.step_unread hpin (h.books.drop (h.alone (hsound (.inl rfl)) ho)) id heff
    exact ⟨.inr rfl, hinv⟩
  · have hsettle := h.books.settle (h.alone (hsound (by simp)) ho)
    have hsingle := h.books.single
    obtain ⟨rfl, hinv⟩ := h.step_unread hpin hsettle (fun hpending => by
      simp only [Pending, tally_add, reduceCtorEq, if_false, if_true] at *
      omega) heff
    exact ⟨.inr rfl, hinv⟩
  · -- there is no reference to drop
    rcases heff with ⟨⟨err, rfl⟩, hentry, -⟩ | ⟨-, e, he, hguard, -⟩
    · exact ⟨.inl rfl, h.same hentry hpin⟩
    · exact absurd ((readRef_some he).symm.trans (hx rfl)) hguard
  · obtain ⟨rfl, hinv⟩ := h.step_unread hpin (h.books.unread hreads) id heff
    exact ⟨.inr rfl, hinv⟩

theorem step_convertToStorage {offset : UInt64}
    (hsound : g.Sound) (ho : o.ledger ≤ o.locks) (hrole : g.role = .settling ∨ g.role = .untracked)
    (hx : g.role = .untracked → o.dropped = 0 ∧ v.readRef = 0 ∧ v.writeRef = 0)
    (heff : (convertToStorage k offset).Effect a v.entry v'.entry) :
    (g.role = .settling → a = .ok ()) ∧
      RefInv v' locked ((g.afterMap (.convertToStorage k offset) a).tally.add o) := by
  obtain ⟨reads, role, l⟩ := g
  rcases hrole with rfl | rfl
  · have halone := h.alone (hsound (by simp)) ho
    obtain ⟨hr, hbooks⟩ := h.books.settle halone
    have hsingle := h.books.single
    obtain ⟨e, p, n, he, hloc⟩ := h.unwritten (by
      simp only [Pending, tally_add, ledger, reduceCtorEq, if_false, if_true] at *
      omega)
    rcases heff with ⟨-, -, hguard⟩ | ⟨rfl, x, hx', -, he'⟩
    · exact absurd ⟨p, n, none, hloc⟩ (hguard e he)
    · rw [he] at hx'
      cases hx'
      simp only [withStorage, hloc] at he'
      refine ⟨fun _ => rfl, idle ?_ ?_⟩
      · rw [readRef_some he', writeRef_some he', hpin, ← readRef_some he, ← writeRef_some he]
        exact hbooks
      · rw [hpin]
        simp only [Pending, afterMap, tally_add, ledger,
          reduceCtorEq, if_false, if_true] at *
        omega
  · refine ⟨nofun, ?_⟩
    rcases heff with ⟨⟨err, rfl⟩, hentry, -⟩ | ⟨rfl, e, he, ⟨p, n, old, hloc⟩, he'⟩
    · exact h.same hentry hpin
    · obtain ⟨hdropped, hr, hw⟩ := hx rfl
      have hbooks := h.books
      simp only [withStorage, hloc] at he'
      refine idle ?_ ?_
      · rw [readRef_some he', writeRef_some he', hpin]
        rw [readRef_some he] at hr hbooks
        rw [writeRef_some he] at hbooks
        have hzero : e.readRef - 1 = e.readRef := by omega
        rw [hzero]
        exact hbooks
      · rw [hpin]
        have hexact := hbooks.exact
        have hwriter := hbooks.writer
        simp only [Pending, afterMap, tally_add, reduceCtorEq, if_false] at *
        omega

theorem step_createMemoryTierEntry {p : Pointer} {n : UInt32} (hrole : g.role = .none)
    (heff : (createMemoryTierEntry k p n).Effect a v.entry v'.entry) :
    RefInv v' locked ((g.afterMap (.createMemoryTierEntry k p n) a).tally.add o) := by
  obtain ⟨reads, role, l⟩ := g
  obtain rfl : role = .none := hrole
  rcases heff with ⟨rfl, -, hentry⟩ | ⟨rfl, hentry, -⟩ | ⟨rfl, -, hnone, he'⟩
  · exact h.same hentry hpin
  · exact h.same hentry hpin
  · have hbooks := h.books
    rw [readRef_none hnone, writeRef_none hnone] at hbooks
    refine ⟨?_, fun _ => ⟨_, p, n, he', rfl⟩⟩
    rw [readRef_some he', writeRef_some he', hpin]
    refine hbooks.create fun hpending => ?_
    -- an entry whose write-through is under way would be there
    obtain ⟨e, -, -, he, -⟩ := h.unwritten (by
      simp only [Pending, tally_add, reduceCtorEq, if_false]
      omega)
    rw [hnone] at he
    cases he

theorem step_releaseWrite (hrole : g.role = .writes)
    (heff : (releaseWrite k).Effect a v.entry v'.entry) :
    RefInv v' locked ((g.afterMap (.releaseWrite k) a).tally.add o) := by
  obtain ⟨reads, role, l⟩ := g
  obtain rfl : role = .writes := hrole
  obtain ⟨hw, hbooks⟩ := h.books.publish
  have hsingle := h.books.single
  obtain ⟨e, he⟩ := exists_entry (.inr hw)
  rw [writeRef_some he] at hw
  rw [readRef_some he] at hbooks
  rcases heff with ⟨-, -, hguard⟩ | ⟨rfl, x, hx, -, he'⟩
  · exact absurd hw (hguard e he)
  · rw [he] at hx
    cases hx
    refine h.counted he he' hpin rfl hbooks fun hpending => ?_
    simp only [Pending, afterMap, tally_add, reduceCtorEq, if_false, if_true] at *
    omega

theorem step_downgradeReference (hrole : g.role = .writes)
    (heff : (downgradeReference k).Effect a v.entry v'.entry) :
    a = .ok () ∧ RefInv v' locked ((g.afterMap (.downgradeReference k) a).tally.add o) := by
  obtain ⟨reads, role, l⟩ := g
  obtain rfl : role = .writes := hrole
  obtain ⟨hw, hr, hbooks⟩ := h.books.downgrade
  obtain ⟨e, he⟩ := exists_entry (.inr hw)
  rw [writeRef_some he] at hw
  rw [readRef_some he] at hr hbooks
  have hmax : 0 < maxRef := by decide
  rcases heff with (⟨-, -, hguard⟩ | ⟨rfl, x, hx, -, he'⟩) | ⟨x, hx, -, hfull, -⟩
  · exact absurd ⟨hw, hr.trans_lt hmax⟩ (hguard e he)
  · rw [he] at hx
    cases hx
    refine ⟨rfl, h.counted he he' hpin rfl hbooks fun hpending => ?_⟩
    simp only [Pending, afterMap, tally_add, reduceCtorEq, if_false, if_true] at *
    omega
  · rw [he] at hx
    cases hx
    omega

theorem step_remove (hrole : g.role = .dropped ∨ g.role = .none) (hx : o.dropped = 0)
    (heff : (remove k).Effect a v.entry v'.entry) :
    RefInv v' locked ((g.afterMap (.remove k) a).tally.add o) := by
  obtain ⟨reads, role, l⟩ := g
  rcases heff with ⟨rfl, hv, hv'⟩ | ⟨rfl, hentry, -⟩ | ⟨rfl, hv', e, he, hr, hw⟩
  · exact h.same (hv'.trans hv.symm) hpin
  · exact h.same hentry hpin
  · have hbooks := h.books
    rw [readRef_some he, writeRef_some he, hr, hw] at hbooks
    have hexact := hbooks.exact
    have hsingle := hbooks.single
    have hwriter := hbooks.writer
    rcases hrole with rfl | rfl
    · refine idle ?_ fun hpending => ?_
      · rw [readRef_none hv', writeRef_none hv', hpin]
        exact hbooks.clear
      · rw [hpin] at hpending
        simp only [Pending, afterMap, tally_add, reduceCtorEq, if_false, if_true] at *
        omega
    · refine idle ?_ fun hpending => ?_
      · rw [readRef_none hv', writeRef_none hv', hpin]
        exact hbooks
      · rw [hpin] at hpending
        simp only [Pending, afterMap, tally_add, reduceCtorEq, if_false] at *
        omega

/-- An operation that moves an entry which was written through, if it does anything. -/
theorem step_moved {guard : DispatchEntry → Prop}
    (heff : Modifies guard (fun x => { x with location := x.location.demoted }) a v.entry v'.entry)
    (hguard : ∀ x, guard x → x.location.Written) :
    RefInv v' locked (g.tally.add o) := by
  rcases heff with ⟨-, hentry, -⟩ | ⟨-, e, he, hwritten, he'⟩
  · exact h.same hentry hpin
  · refine h.moved he he' hpin rfl rfl fun p n hloc => ?_
    obtain ⟨p', n', o', hloc'⟩ := hguard e hwritten
    rw [hloc] at hloc'
    cases hloc'

/-- **A call of the dispatch map** about the key. -/
theorem step_map {c : MapCall} {a : c.Answer}
    (hsound : g.Sound) (ho : o.ledger ≤ o.locks) (hallows : g.Allows (.map c))
    (hx : Accounted v g o (.map c)) (heff : c.Effect a v.entry v'.entry) :
    g.Expects (.map c) a ∧ RefInv v' locked ((g.afterMap c a).tally.add o) := by
  cases c with
  | lookup k => exact ⟨trivial, h.step_lookup hpin hallows hx heff⟩
  | takeRead k => exact h.step_takeRead hpin hsound ho hallows hx heff
  | releaseRead k => exact h.step_releaseRead hpin hsound ho hallows hx heff
  | convertToStorage k o => exact h.step_convertToStorage hpin hsound ho hallows hx heff
  | createMemoryTierEntry k p n =>
    exact ⟨trivial, h.step_createMemoryTierEntry hpin hallows heff⟩
  | releaseWrite k => exact ⟨trivial, h.step_releaseWrite hpin hallows heff⟩
  | downgradeReference k => exact h.step_downgradeReference hpin hallows heff
  | remove k => exact ⟨trivial, h.step_remove hpin hallows hx heff⟩
  | convertMemoryTierToBlock k => exact ⟨trivial, h.step_moved hpin heff (fun _ hx => hx)⟩
  | tryEvictToBlock k => exact ⟨trivial, h.step_moved hpin heff (fun _ hx => hx.2.2)⟩
  | promoteBlockToMemoryTier k p n =>
    refine ⟨trivial, ?_⟩
    rcases heff with ⟨-, hentry, -⟩ | ⟨-, -, e, loc, he, hloc, he'⟩
    · exact h.same hentry hpin
    · refine h.moved he he' hpin rfl rfl fun p n hloc' => ?_
      rw [hloc] at hloc'
      cases hloc'
  | entrySize k => exact ⟨trivial, h.same heff.1 hpin⟩
  | oldestKeys n => exact ⟨trivial, h.same heff hpin⟩

end

/-! ### Calls of the ledger -/

/-- A call that leaves the entry alone: the books of the new tally have to be shown. -/
theorem pinned (h : RefInv v locked n) (hentry : v'.entry = v.entry)
    (hbooks : Balanced v.readRef v.writeRef v'.pin locked' n')
    (hpending : Pending v'.pin n' → Pending v.pin n) : RefInv v' locked' n' := by
  have hrefs : v'.readRef = v.readRef ∧ v'.writeRef = v.writeRef := by
    simp only [readRef, writeRef, hentry, and_self]
  refine ⟨hrefs.1 ▸ hrefs.2 ▸ hbooks, fun hp => ?_⟩
  obtain ⟨e, p, m, he, hloc⟩ := h.unwritten (hpending hp)
  exact ⟨e, p, m, hentry ▸ he, hloc⟩

theorem pinned_of_forgets (h : p.Forgets p') : p'.pinned = p.pinned := by
  rcases h with rfl | ⟨hidle, rfl⟩
  · rfl
  · simp only [PinState.idle, Bool.and_eq_true, Bool.not_eq_true'] at hidle
    exact hidle.1.1.1.symm

theorem pending_congr (h : p'.pinned = p.pinned) : Pending p' n → Pending p n := by
  unfold Pending
  rw [h]
  exact id

variable (h : RefInv v locked (g.tally.add o))
include h

theorem step_unlock (hrole : g.role = .none ∨ g.role = .takes)
    (hlocks : g.locks) (hforgets : v.pin.Forgets p') (hentry : v'.entry = v.entry)
    (hpin : v'.pin = p') :
    RefInv v' false (({ g with role := .none, locks := false } : Refs).tally.add o) := by
  obtain ⟨reads, role, l⟩ := g
  obtain rfl : l := hlocks
  subst hpin
  refine h.pinned hentry ((h.books.unlock hrole).forget hforgets) fun hpending => ?_
  have hpending' := pending_congr (pinned_of_forgets hforgets) hpending
  rcases hrole with rfl | rfl <;> exact hpending'

theorem step_start {a : (PinCall.start k).Answer}
    (hrole : g.role = .none) (heff : (PinCall.start k).Effect writer a v.pin v'.pin)
    (hentry : v'.entry = v.entry) : RefInv v' locked ((g.afterPins (.start k) a).tally.add o) := by
  obtain ⟨reads, role, l⟩ := g
  obtain rfl : role = .none := hrole
  rcases heff with ⟨rfl, -, hforgets⟩ | ⟨rfl, -, -, hpin⟩ | ⟨rfl, -, hqueued, hpin⟩
  · have hpinned := pinned_of_forgets hforgets
    exact h.pinned hentry ((h.books.stale rfl).forget hforgets) (pending_congr hpinned)
  · exact h.pinned hentry (hpin ▸ h.books) (pending_congr (congrArg PinState.pinned hpin))
  · have hpinned := congrArg PinState.pinned hpin
    exact h.pinned hentry (hpin ▸ h.books.start hqueued) (pending_congr hpinned)

omit h in
theorem step_finish {a writer : Bool} (h : RefInv v false (g.tally.add o)) (ho : o.ledger ≤ o.locks)
    (hrole : g.role = .owned) (heff : (PinCall.finish k).Effect writer a v.pin v'.pin)
    (hentry : v'.entry = v.entry) : RefInv v' true ((g.afterPins (.finish k) a).tally.add o) := by
  obtain ⟨reads, role, l⟩ := g
  obtain rfl : role = .owned := hrole
  obtain rfl : l = false := by
    cases l with
    | false => rfl
    | true =>
      have hlock := h.books.lock
      simp [add, Refs.tally] at hlock
  obtain ⟨ha, hpin⟩ := heff
  have hbooks := h.books
  rw [balanced_iff] at hbooks
  cases hremoved : v.pin.removed with
  | false =>
    rw [hremoved] at ha hbooks
    obtain rfl : a := ha
    refine h.pinned hentry (hpin ▸ h.books.finish ho hremoved) fun hpending => ?_
    rw [hpin] at hpending
    simp only [Pending, Refs.afterPins, tally_add, reduceCtorEq,
      if_false, if_true, toNat_false] at *
    omega
  | true =>
    rw [hremoved] at ha hbooks
    obtain rfl : a = false := ha
    refine h.pinned hentry (hpin ▸ h.books.finishRemoved hremoved) fun hpending => ?_
    rw [hpin] at hpending
    simp only [Pending, Refs.afterPins, tally_add, reduceCtorEq,
      if_false, if_true, toNat_false, toNat_true] at *
    omega

theorem step_tookOver {a writer : Bool}
    (ho : o.ledger ≤ o.locks) (hallows : g.role = .cleared ∧ g.locks)
    (heff : (PinCall.tookOver k).Effect writer a v.pin v'.pin) (hentry : v'.entry = v.entry) :
    RefInv v' false ((g.afterPins (.tookOver k) a).tally.add o) := by
  have halone := h.alone hallows.2 ho
  obtain ⟨reads, role, l⟩ := g
  obtain ⟨rfl, rfl⟩ : role = .cleared ∧ l := hallows
  obtain ⟨-, hforgets⟩ := heff
  refine h.pinned hentry (Balanced.forget (h.books.tookOver ho) hforgets) fun hpending => ?_
  have hpending' := pending_congr (pinned_of_forgets hforgets) hpending
  have htaken := h.books.taken
  have hpinned := toNat_le v.pin.pinned
  simp only [Pending, afterPins, tally_add, ledger,
    reduceCtorEq, if_false, if_true, toNat_false] at *
  omega

/-- **A call of the ledger** about the key. -/
theorem step_pins {c : PinCall} {a : c.Answer}
    (ho : o.ledger ≤ o.locks) (hallows : g.Allows (.pins c)) (hx : Accounted v g o (.pins c))
    (heff : c.Effect writer a v.pin v'.pin) (hentry : v'.entry = v.entry)
    (hlock : c.Locks locked locked') : RefInv v' locked' ((g.afterPins c a).tally.add o) := by
  cases c with
  | pin job =>
    obtain ⟨rfl, rfl⟩ := hlock
    obtain ⟨reads, role, l⟩ := g
    obtain rfl : role = .stored := hallows
    have hpin : v'.pin = { v.pin with pinned := true, queued := writer } := heff
    refine h.pinned hentry (hpin ▸ h.books.pin ho hx) fun hpending => ?_
    have hbooks := h.books
    rw [balanced_iff] at hbooks
    rw [hpin] at hpending
    simp only [Pending, Refs.afterPins, tally_add, ledger,
      reduceCtorEq, if_false, if_true, toNat_false, toNat_true] at *
    omega
  | start k =>
    obtain ⟨rfl, rfl⟩ := hlock
    exact h.step_start hallows heff hentry
  | finish k =>
    obtain ⟨rfl, rfl⟩ := hlock
    exact h.step_finish ho hallows heff hentry
  | settled k =>
    obtain rfl : locked' = false := hlock
    exact h.step_unlock (.inl hallows.1) hallows.2 heff hentry rfl
  | takeOver k =>
    obtain ⟨rfl, rfl⟩ := hlock
    obtain ⟨ha, hpin⟩ := heff
    obtain ⟨reads, role, l⟩ := g
    obtain rfl : role = .none := hallows
    have hpinned := congrArg PinState.pinned hpin
    cases a with
    | true =>
      obtain rfl : l = false := by
        cases l with
        | false => rfl
        | true =>
          have hlock := h.books.lock
          simp [add, Refs.tally] at hlock
      exact h.pinned hentry (hpin ▸ h.books.takeOver ho ha.symm) (pending_congr hpinned)
    | false => exact h.pinned hentry (hpin ▸ h.books.acquire) (pending_congr hpinned)
  | tookOver k =>
    obtain rfl : locked' = false := hlock
    exact h.step_tookOver ho hallows heff hentry
  | gaveUp k =>
    obtain rfl : locked' = false := hlock
    exact h.step_unlock hallows.1.symm hallows.2 (.inl rfl) hentry heff
  | recordWrite k landed =>
    obtain rfl : locked' = locked := hlock
    have hpin : v'.pin = v.pin := heff
    have htally : (g.afterPins (.recordWrite k landed) a).tally = g.tally := by
      obtain ⟨reads, role, l⟩ := g
      cases role <;> rfl
    rw [htally]
    exact h.pinned hentry (hpin ▸ h.books) (pending_congr (congrArg PinState.pinned hpin))

/-- A call about another key, or about none: it may take or release the lock of the ledger. -/
theorem step_elsewhere {c : Call} (hallows : g.AllowsElsewhere c) (hlock : c.Locks locked locked') :
    RefInv v locked' ((g.elsewhere c).tally.add o) := by
  rcases c with c | c | c | c | _
  case pins =>
    cases c with
    | pin _ | start _ =>
      obtain ⟨rfl, rfl⟩ := hlock
      exact h
    | finish _ | takeOver _ =>
      obtain ⟨rfl, rfl⟩ := hlock
      exact h.pinned rfl h.books.acquire id
    | settled _ | tookOver _ | gaveUp _ =>
      obtain rfl : locked' = false := hlock
      have hunlock := h.step_unlock (.inl hallows.1) hallows.2 (.inl rfl) rfl rfl
      obtain ⟨reads, role, l⟩ := g
      obtain rfl : role = .none := hallows.1
      exact hunlock
    | recordWrite _ _ =>
      obtain rfl : locked' = locked := hlock
      exact h
  all_goals
    obtain rfl : locked' = locked := hlock
    exact h

end RefInv

/-! ## Whole runs -/

/-- Roles that hold the ledger are kept with its lock. -/
theorem Refs.Sound.after (h : g.Sound) {a : c.Answer} (hallows : g.Allows c) :
    (g.after c a).Sound := by
  obtain ⟨reads, role, l⟩ := g
  rcases c with c | c | c | c | _
  case map =>
    cases c
    case lookup => rcases a with e | (_ | _ | _ | _) <;> exact h
    case takeRead =>
      rcases a with e | ⟨⟩
      · exact h
      · rcases hallows with hrole | hrole <;> obtain rfl := hrole
        · exact fun _ => h (.inr (.inl rfl))
        · exact h
    case releaseRead =>
      rcases a with e | ⟨⟩
      · exact h
      · rcases hallows with hrole | hrole | hrole | ⟨hrole, -⟩ <;> obtain rfl := hrole
        · exact fun _ => h (.inl rfl)
        · exact nofun
        · exact h
        · exact h
    case convertToStorage =>
      rcases a with e | ⟨⟩
      · exact h
      · rcases hallows with hrole | hrole <;> obtain rfl := hrole
        · exact nofun
        · exact h
    case createMemoryTierEntry =>
      rcases a with e | ⟨⟩
      · exact h
      · exact nofun
    case releaseWrite => exact nofun
    case downgradeReference =>
      rcases a with e | ⟨⟩
      · exact h
      · exact nofun
    case remove =>
      rcases a with e | ⟨⟩
      · exact h
      · rcases hallows with hrole | hrole <;> obtain rfl := hrole
        · exact fun _ => h (.inr (.inl rfl))
        · exact h
    all_goals exact h
  case pins =>
    cases c
    case pin => exact nofun
    case start => cases a <;> first | exact h | exact nofun
    case finish => cases a <;> exact fun _ => rfl
    case takeOver => cases a <;> exact fun _ => rfl
    case recordWrite =>
      cases role <;> first | exact h | exact nofun
    all_goals exact nofun
  all_goals exact h

theorem Refs.Sound.elsewhere (h : g.Sound) (hallows : g.AllowsElsewhere c) :
    (g.elsewhere c).Sound := by
  obtain ⟨reads, role, l⟩ := g
  rcases c with c | c | c | c | _
  case pins =>
    cases c
    case finish | takeOver => exact fun _ => rfl
    case settled | tookOver | gaveUp =>
      obtain rfl : role = .none := hallows.1
      exact nofun
    all_goals exact h
  all_goals exact h

/-- **What the steps of a bookkept run are asked for.** -/
def Bookkept (s : System) : SystemMove → Prop
  | .spawn _ => True
  | .step i _ =>
    match s.threads[i]? with
    | none => True
    | some th =>
      match th.next with
      | none => True
      | some c =>
        match c.key with
        | none => True
        | some k =>
          Accounted (s.shared.view k) (th.ghost (refDiscipline k))
            (tally ((s.ghosts (refDiscipline k)).eraseIdx i)) c

instance (v : KeyView) (g : Refs) (others : Tally) (c : Call) :
    Decidable (Accounted v g others c) := by
  unfold Accounted
  split <;> infer_instance

instance (s : System) (m : SystemMove) : Decidable (Bookkept s m) := by
  unfold Bookkept
  repeat' split
  all_goals infer_instance

/-- What a bookkept step asks of a call about `k`. -/
theorem Bookkept.accounted {s : System} {r : Request} {f : c.Answer → Proc Unit}
    {past : List (Sigma Call.Answer)} (h : Bookkept s (.step i o))
    (hi : s.threads[i]? = some ⟨r, .call c f, past⟩) (hk : c.key = some k) :
    Accounted (s.shared.view k) (trace (refDiscipline k) ⟨r, .call c f, past⟩)
      (tally ((s.ghosts (refDiscipline k)).eraseIdx i)) c := by
  simpa [Bookkept, hi, Thread.next, ghost, hk] using h

/-- The invariant of a key, over the shared state and the ghost values. -/
def RefsKept (k : CacheKey) (σ : Shared) (gs : List Refs) : Prop :=
  RefInv (σ.view k) σ.locked (tally gs) ∧ ∀ g ∈ gs, g.Sound

/-- **A call**, about the key or not, keeps the invariant of the key. -/
theorem refsKept_call {σ σ' : Shared} {a : c.Answer} (h : RefsKept k σ gs) (hg : gs[i]? = some g)
    (hallowed : (refDiscipline k).allowed g c)
    (hx : c.key = some k → Accounted (σ.view k) g (tally (gs.eraseIdx i)) c)
    (hexec : c.exec o σ = some (a, σ')) :
    (refDiscipline k).possible g c a ∧
      RefsKept k σ' (gs.set i ((refDiscipline k).after g c a)) := by
  obtain ⟨hinv, hsound⟩ := h
  have hself : g.Sound := hsound g (mem_of_getElem? hg)
  have hothers : ∀ x ∈ gs.eraseIdx i, x.Sound := fun x hx =>
    hsound x (mem_of_mem_eraseIdx hx)
  have ho := ledger_le_locks hothers
  have hgen := genuine_exec hexec
  have hlock := lock_exec hexec
  rw [tally_eq_add hg] at hinv
  by_cases hk : c.key = some k
  · have heff := view_exec hexec hk
    have hafter : (refDiscipline k).after g c a = g.after c a := if_pos hk
    have hallows := hallowed.1 hk
    have hstep : g.Expects c a ∧
        RefInv (σ'.view k) σ'.locked ((g.after c a).tally.add (tally (gs.eraseIdx i))) := by
      cases c
      case map c =>
        obtain ⟨heff, -, hpin⟩ := heff
        rw [show σ'.locked = σ.locked from hlock]
        exact hinv.step_map hpin hself ho hallows (hx hk) heff
      case tier c =>
        obtain ⟨-, hentry, hpin⟩ := heff
        rw [show σ'.locked = σ.locked from hlock]
        exact ⟨trivial, hinv.same hentry hpin⟩
      case pins c =>
        obtain ⟨heff, hentry, -⟩ := heff
        exact ⟨trivial, hinv.step_pins ho hallows (hx hk) heff hentry hlock⟩
      all_goals cases hk
    rw [hafter]
    refine ⟨⟨hgen, fun _ => hstep.1⟩, ?_, fun x hx => ?_⟩
    · rw [tally_set hg]
      exact hstep.2
    · rcases mem_set_cases hx with rfl | hx
      · exact hself.after hallows
      · exact hothers x hx
  · have hafter : (refDiscipline k).after g c a = g.elsewhere c := if_neg hk
    have hallows := hallowed.2 hk
    rw [hafter, RefsKept, view_exec_of_ne hexec hk, tally_set hg]
    refine ⟨⟨hgen, fun heq => absurd heq hk⟩, hinv.step_elsewhere hallows hlock, fun x hx => ?_⟩
    rcases mem_set_cases hx with rfl | hx
    · exact hself.elsewhere hallows
    · exact hothers x hx

theorem refsKept_init (k : CacheKey) (capacity numDrives blockSize : ℕ)
    (extents : OrdMap UInt64 Extent) (disk : Bytes) :
    RefsKept k (Shared.init capacity numDrives blockSize extents disk) [] := by
  refine ⟨⟨?_, fun h => by cases h⟩, fun _ h => by cases h⟩
  have hrefs : ((Shared.init capacity numDrives blockSize extents disk).view k).readRef = 0 ∧
      ((Shared.init capacity numDrives blockSize extents disk).view k).writeRef = 0 := by
    cases he : ((Shared.init capacity numDrives blockSize extents disk).view k).entry with
    | none => exact ⟨readRef_none he, writeRef_none he⟩
    | some e =>
      obtain ⟨loc, ext, -, -, -, rfl⟩ := recoverEntries_get? he
      exact ⟨readRef_some he, writeRef_some he⟩
  have hpin : ((Shared.init capacity numDrives blockSize extents disk).view k).pin = {} := rfl
  have hbooks : Balanced 0 0 {} false (tally []) := by
    rw [balanced_iff]
    decide
  rw [hrefs.1, hrefs.2, hpin]
  exact hbooks

/-- Along a bookkept run, the procedures keep to the discipline of every key and its books are
balanced. -/
theorem disciplined_refs (k : CacheKey) {capacity numDrives blockSize : ℕ}
    {extents : OrdMap UInt64 Extent} {disk : Bytes} {ms : List SystemMove} {t : System}
    (hrun : Run machine.step Bookkept (System.init capacity numDrives blockSize extents disk)
      ms t) : Disciplined (refDiscipline k) (Proc.Holds 0) (RefsKept k) t := by
  refine Machine.disciplined (fun r => body_follows_refDiscipline k r) ?_ ?_ ?_
    ⟨refsKept_init k capacity numDrives blockSize extents disk, fun u hu => by cases hu⟩ hrun
  · intro s r σ' hinv _ haccept
    obtain ⟨hview, -, hlocked⟩ := view_accept haccept k
    rw [RefsKept, hview, hlocked]
    refine ⟨?_, fun g hg => ?_⟩
    · rw [show (refDiscipline k).init r = {} from rfl, tally_concat_idle]
      exact hinv.1
    · rcases mem_append.mp hg with hg | hg
      · exact hinv.2 g hg
      · obtain rfl := mem_singleton.mp hg
        exact nofun
  · rintro σ gs i g hg rfl hinv
    rwa [show (refDiscipline k).finished = ⟨0, .none, false⟩ from rfl, set_getElem?_self hg]
  · intro s i o r c f past a σ' hs hi hguard hallowed hexec
    exact refsKept_call hs.inv (Pool.ghosts_getElem? hi) hallowed (hguard.accounted hi) hexec

/-- The references on the entry of a key: those of lookups and client pins, and that of the
write-through, which is with the store, with the pin in the ledger or with the job. A removal that
takes the pin over has dropped its reference. -/
def System.held (s : System) (k : CacheKey) : ℕ :=
  let n := tally (s.ghosts (refDiscipline k))
  n.reads + n.stored + n.settling +
    if (s.shared.pins.state k).pinned ∧ n.dropped + n.cleared = 0 then 1 else 0

/-- The references of the lookups and client pins of all procedures but the `i`-th. -/
def System.readers (s : System) (k : CacheKey) (i : ℕ) : ℕ :=
  (tally ((s.ghosts (refDiscipline k)).eraseIdx i)).reads

/-- The entry is removed, or taken out of the memory tier. -/
def KeyView.Loses (v v' : KeyView) : Prop :=
  ∃ e, v.entry = some e ∧ ∀ e', v'.entry = some e' → e.location.Resident ∧ ¬ e'.location.Resident

theorem RefInv.readRef_eq {locked : Bool} {n : Tally} (h : RefInv v locked n) :
    v.readRef = n.reads + n.stored + n.settling +
      if v.pin.pinned ∧ n.dropped + n.cleared = 0 then 1 else 0 := by
  have hexact := h.books.exact
  have htaken := h.books.taken
  cases hpinned : v.pin.pinned <;>
    simp only [hpinned, toNat_false, toNat_true, reduceCtorEq, false_and, true_and,
      if_false] at hexact htaken ⊢
  · omega
  · split_ifs <;> omega

/-- An entry that stays where it is, or comes to be resident, is not lost. -/
theorem KeyView.Loses.elim (h : v.Loses v') (hkeeps : ∀ e, v.entry = some e →
      ∃ e', v'.entry = some e' ∧ (e.location.Resident → e'.location.Resident)) : False := by
  obtain ⟨e, he, hlost⟩ := h
  obtain ⟨e', he', hres⟩ := hkeeps e he
  obtain ⟨hr, hnr⟩ := hlost e' he'
  exact hnr (hres hr)

/-- What becomes of an entry: it stays where it is, is created, is removed without references, comes
to be resident, or is demoted, which a removal does to the entry it looked up and an eviction to one
without references. -/
theorem MapCall.Effect.change {c : MapCall} {a : c.Answer} {e e' : Option DispatchEntry}
    (h : c.Effect a e e') : e'.map (·.location) = e.map (·.location) ∨
      (e = none ∧ ∃ k p n, c = .createMemoryTierEntry k p n) ∨
      (e' = none ∧ ∃ x, e = some x ∧ x.readRef = 0 ∧ x.writeRef = 0 ∧ ∃ k, c = .remove k) ∨
      ∃ x x', e = some x ∧ e' = some x' ∧ (x'.location.Resident ∨ x.readRef = 0 ∨
        (∃ k, c = .convertMemoryTierToBlock k) ∧ x.location.demoted ≠ x.location) := by
  -- operations on the references of an entry leave it where it is
  have hstays : ∀ {guard f} {a : Except DispatchMapError Unit}, Modifies guard f a e e' →
      (∀ x : DispatchEntry, (f x).location = x.location) →
      e'.map (·.location) = e.map (·.location) := by
    rintro guard f a (⟨-, rfl, -⟩ | ⟨-, x, rfl, -, rfl⟩) hf
    · rfl
    · exact congrArg some (hf x)
  cases c with
  | lookup k =>
    left
    rcases h with ⟨-, rfl, rfl⟩ | ⟨-, rfl⟩ | ⟨x, rfl, -, -, rfl⟩ <;> rfl
  | takeRead k | releaseRead k | releaseWrite k => exact .inl (hstays h fun _ => rfl)
  | downgradeReference k =>
    left
    rcases h with h | ⟨x, rfl, -, -, -, rfl⟩
    · exact hstays h fun _ => rfl
    · rfl
  | createMemoryTierEntry k p n =>
    rcases h with ⟨-, -, rfl⟩ | ⟨-, rfl, -⟩ | ⟨-, -, hnone, -⟩
    · exact .inl rfl
    · exact .inl rfl
    · exact .inr (.inl ⟨hnone, k, p, n, rfl⟩)
  | remove k =>
    rcases h with ⟨-, rfl, rfl⟩ | ⟨-, rfl, -⟩ | ⟨-, hnone, x, hx, hr, hw⟩
    · exact .inl rfl
    · exact .inl rfl
    · exact .inr (.inr (.inl ⟨hnone, x, hx, hr, hw, k, rfl⟩))
  | convertToStorage k o =>
    rcases h with ⟨-, rfl, -⟩ | ⟨-, x, hx, ⟨p, n, old, hloc⟩, hx'⟩
    · exact .inl rfl
    · simp only [withStorage, hloc] at hx'
      exact .inr (.inr (.inr ⟨x, _, hx, hx', .inl ⟨p, n, _, rfl⟩⟩))
  | promoteBlockToMemoryTier k p n =>
    rcases h with ⟨-, rfl, -⟩ | ⟨-, -, x, o, hx, -, hx'⟩
    · exact .inl rfl
    · exact .inr (.inr (.inr ⟨x, _, hx, hx', .inl ⟨p, n, _, rfl⟩⟩))
  | convertMemoryTierToBlock k =>
    rcases h with ⟨-, rfl, -⟩ | ⟨-, x, hx, hwritten, hx'⟩
    · exact .inl rfl
    · obtain ⟨o, ho⟩ := hwritten.demoted_eq
      obtain ⟨p, n, o', hloc⟩ := hwritten
      refine .inr (.inr (.inr ⟨x, _, hx, hx', .inr (.inr ⟨⟨k, rfl⟩, ?_⟩)⟩))
      rw [ho, hloc]
      nofun
  | tryEvictToBlock k =>
    rcases h with ⟨-, rfl, -⟩ | ⟨-, x, hx, hguard, hx'⟩
    · exact .inl rfl
    · exact .inr (.inr (.inr ⟨x, _, hx, hx', .inr (.inl hguard.1)⟩))
  | entrySize k => exact .inl (by rw [h.1])
  | oldestKeys n => exact .inl (by rw [show e' = e from h])

/-- Only an entry without references is removed or evicted; a removal flips that of its own
lookup. -/
theorem MapCall.Effect.readRef_of_loses {c : MapCall} {a : c.Answer}
    (heff : c.Effect a v.entry v'.entry) (h : v.Loses v') :
    v.readRef = 0 ∨ (∃ k, c = .convertMemoryTierToBlock k) ∧
      ∃ e, v.entry = some e ∧ e.location.demoted ≠ e.location := by
  obtain ⟨e, he, hlost⟩ := h
  rcases heff.change with hstays | ⟨hnone, -⟩ | ⟨-, x, hx, hr, -⟩ | ⟨x, x', hx, hx', hcase⟩
  · rw [he] at hstays
    obtain ⟨e', he', hloc⟩ := Option.map_eq_some_iff.mp hstays
    obtain ⟨hres, hnot⟩ := hlost e' he'
    exact absurd (hloc.symm ▸ hres) hnot
  · cases hnone.symm.trans he
  · exact .inl ((readRef_some hx).trans hr)
  · rcases hcase with hres | hr | ⟨hc, hmoves⟩
    · exact absurd hres (hlost x' hx').2
    · exact .inl ((readRef_some hx).trans hr)
    · exact .inr ⟨hc, x, hx, hmoves⟩

/-- **Read references are exact.** Along every bookkept run, the read references of an entry are
those held on it; and a further step of such a run removes an entry, or takes it out of the memory
tier, only when nobody else reads it. -/
theorem readRef_eq_held {capacity numDrives blockSize : ℕ} {extents : OrdMap UInt64 Extent}
    {disk : Bytes} {ms : List SystemMove} {t : System}
    (hrun : Run machine.step Bookkept (System.init capacity numDrives blockSize extents disk)
      ms t) :
    (∀ k e, t.shared.map.get? k = some e → e.readRef = System.held t k) ∧
    ∀ i o u, Bookkept t (.step i o) → machine.step t (.step i o) = some u →
      ∀ k, (t.shared.view k).Loses (u.shared.view k) → System.readers t k i = 0 := by
  refine ⟨fun k e he => ?_, fun i o u hguard hstep k hloses => ?_⟩
  · have hinv := (disciplined_refs k hrun).inv.1
    exact (readRef_some (v := t.shared.view k) he).symm.trans hinv.readRef_eq
  · obtain ⟨r, c, f, past, a, σ', hi, hexec, rfl⟩ := Machine.step_call hstep
    have hdisc := disciplined_refs k hrun
    have hinv := hdisc.inv.1
    rw [tally_eq_add (Pool.ghosts_getElem? hi)] at hinv
    have hexact := hinv.books.exact
    have htaken := hinv.books.taken
    have hsame : (σ'.view k).entry = (t.shared.view k).entry → False := fun heq =>
      hloses.elim fun e he => ⟨e, heq.trans he, id⟩
    by_cases hk : c.key = some k
    · have heff := view_exec hexec hk
      cases c
      case map c =>
        rcases MapCall.Effect.readRef_of_loses heff.1 hloses with hzero | ⟨⟨k', rfl⟩, e, he, hmoves⟩
        · unfold System.readers
          simp only [add] at hexact htaken
          omega
        · cases hk
          have hreads : 0 < (trace (refDiscipline k) _).reads :=
            ((hdisc.follows _ (mem_of_getElem? hi)).1).1 rfl
          have hone : (t.shared.view k).readRef ≤ 1 :=
            (readRef_some he).trans_le (hguard.accounted hi rfl e he hmoves)
          unfold System.readers
          simp only [add, Refs.tally, ghost] at hexact htaken
          omega
      case tier c => exact (hsame heff.2.1).elim
      case pins c => exact (hsame heff.2.1).elim
      all_goals cases hk
    · exact (hsame (by rw [view_exec_of_ne hexec hk])).elim

/-- A bookkept run: a value is stored, and looked up before its write-through. -/
def storeThenRead : List SystemMove :=
  ([.spawn (.populate 1 4096 1 0 0)] : List SystemMove) ++
    List.replicate 10 (.step 0 {} : SystemMove) ++
    ([.spawn (.lookup 1 4096 1 1), .step 1 {}] : List SystemMove)

theorem readRef_eq_held_stored :
    ∃ t, Run machine.step Bookkept (System.fresh 8192 1 512) storeThenRead t ∧
      (∃ e, t.shared.map.get? 1 = some e ∧ e.readRef = 2) ∧ System.held t 1 = 2 := by
  refine exists_run_and_of_checkedExec (fun t => (t.shared.map.get? 1).map DispatchEntry.readRef
    == some 2) (by decide +kernel) fun hrun ht => ?_
  obtain ⟨e, he, href⟩ := Option.map_eq_some_iff.mp (beq_iff_eq.mp ht)
  exact ⟨⟨e, he, href⟩, ((readRef_eq_held hrun).1 1 e he).symm.trans href⟩

/-- A value fetched from a peer is looked up; its job has no pin, and drops the reference of the
lookup when it settles. -/
def jobDropsReader : List SystemMove :=
  ([.spawn (.remoteFetch 1 4096 0)] : List SystemMove) ++
    List.replicate 5 (.step 0 {} : SystemMove) ++
    ([.spawn (.lookup 1 4096 1 1), .step 1 {}] : List SystemMove) ++
    ([.spawn (.writeJob ⟨1, 4096, 0⟩ 1)] : List SystemMove) ++
    List.replicate 6 (.step 2 {} : SystemMove)

theorem readRef_ne_held : ∃ t, Run machine.step anyStep (System.fresh 8192 1 512) jobDropsReader t ∧
      (∃ e, t.shared.map.get? 1 = some e ∧ e.readRef = 0) ∧ System.held t 1 = 1 := by
  refine exists_run_and_of_exec (fun t => ((t.shared.map.get? 1).map DispatchEntry.readRef,
    System.held t 1) == (some 0, 1)) (by decide +kernel) fun hrun ht => ?_
  obtain ⟨hentry, hheld⟩ := Prod.mk.inj (beq_iff_eq.mp ht)
  obtain ⟨e, he, href⟩ := Option.map_eq_some_iff.mp hentry
  exact ⟨⟨e, he, href⟩, hheld⟩

end Certus.Dispatcher
