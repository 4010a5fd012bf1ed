import Certus.Dispatcher.Frame
import Certus.Dispatcher.ReferenceCounts
import Certus.Dispatcher.SlotOwnership

/-! # A write-through reads an allocated slot

A write job looks the slot of its key up, reserves an extent and writes the bytes of the slot to it.
Nothing in the memory tier says that the slot is being read. What keeps it is the pin of the job: as
long as the pin is recorded the entry stays, and whoever is entitled to free a slot does not take it
from an entry; when a removal takes the pin over while the job runs, it leaves the slot to the job.
A job without a pin has no such protection.

* **`reading_slot_allocated`** — a job reads the slot of its key. -/

namespace Certus.Dispatcher

open MemoryTier Prog List Option Thread

/-! ## Readers -/

/-- What a procedure has to do with the bytes of the slot of a key. -/
inductive Reader
  /-- Nothing. -/
  | idle
  /-- It takes the pin over, and leaves the slot alone meanwhile. -/
  | handing
  /-- It is the job of the pin. -/
  | started
  /-- It is the job of the pin and is about to write this slot. -/
  | reading (slot : Slot)
  deriving DecidableEq, Repr

open Reader

namespace Reader

/-- A removal that takes the pin over goes on to do so. -/
def handOn : Reader → Reader
  | handing => handing
  | _ => idle

/-- A job that has looked the slot up goes on to write it. -/
def readOn : Reader → Reader
  | reading s => reading s
  | _ => idle

/-- After a call. -/
def after (k : CacheKey) (g : Reader) : (c : Call) → c.Answer → Reader
  | .tier (.peek key), some (p, n) => if key = k then reading ⟨p, n⟩ else idle
  | .extents (.reserve _), some _ => g.readOn
  | .pins (.start key), .owned => if key = k then started else idle
  | .pins (.takeOver key), true => if key = k then handing else idle
  | .map (.releaseRead _), _ | .map (.remove _), _ | .map (.takeRead _), _ => g.handOn
  | _, _ => idle

/-- The calls that are allowed: only a job with a pin looks the slot up, and a removal that takes
the pin over does nothing else. -/
def Allows (k : CacheKey) (g : Reader) : Call → Prop
  | .tier (.peek key) => (key = k → g = started) ∧ g ≠ handing
  | .map (.releaseRead _) | .map (.remove _) | .map (.takeRead _) => True
  | .pins (.tookOver _) | .pins (.gaveUp _) => True
  | _ => g ≠ handing

/-- The answers that may be expected: a job that starts has a pin, or had one. -/
def Expects (k : CacheKey) : (c : Call) → c.Answer → Prop
  | .pins (.start key), a => key = k → a ≠ .untracked
  | _, _ => True

end Reader

/-- The discipline of a key. -/
def readDiscipline (k : CacheKey) : Discipline Request Call.Answer Reader where
  init _ := .idle
  finished := .idle
  after g c a := g.after k c a
  allowed g c := g.Allows k c
  possible _ c a := c.Genuine a ∧ Reader.Expects k c a

namespace Proc

variable {k : CacheKey} {α : Type}

/-- The call neither looks a slot up nor takes a pin over. -/
def Unhanded : Call → Prop
  | .tier (.peek _) | .pins (.takeOver _) => False
  | _ => True

theorem unhanded_call {c : Call} (hc : Unhanded c) (g : Reader) (hg : g ≠ .handing) :
    (readDiscipline k).allowed g c ∧ ∀ a, (readDiscipline k).possible g c a →
      (readDiscipline k).after g c a ≠ .handing := by
  have hon : g.handOn ≠ .handing := by cases g <;> first | exact absurd rfl hg | nofun
  have hread : g.readOn ≠ .handing := by cases g <;> nofun
  rcases c with c | c | c | c | _
  case map =>
    refine ⟨?_, fun a _ => ?_⟩
    · cases c <;> first | exact trivial | exact hg
    · cases c <;> first | exact hon | nofun
  case tier =>
    refine ⟨?_, fun a _ => ?_⟩
    · cases c <;> first | exact hc.elim | exact hg
    · cases c <;> first | exact hc.elim | nofun
  case pins =>
    refine ⟨?_, fun a ha => ?_⟩
    · cases c <;> first | exact hc.elim | exact trivial | exact hg
    · cases c
      case start key =>
        cases a with
        | owned =>
          show (if key = k then started else .idle) ≠ .handing
          split_ifs <;> nofun
        | stale | untracked => nofun
      case takeOver => exact hc.elim
      all_goals nofun
  case extents =>
    refine ⟨hg, fun a _ => ?_⟩
    cases c
    case reserve => cases a <;> first | exact hread | nofun
    all_goals nofun
  all_goals exact ⟨hg, fun _ _ => nofun⟩

theorem keeps_unhanded {p : Proc α} (hp : p.Only Unhanded) :
    Keeps (readDiscipline k) (· ≠ .handing) p :=
  keeps_of_only (fun _ hc => unhanded_call hc) hp

theorem unhanded_plainlyKept : PlainlyKept (readDiscipline k) (· ≠ .handing) where
  genuine _ _ _ ha := ha.1
  call c hc := by
    refine unhanded_call ?_
    rcases c with c | c | c | c | _ <;> try exact trivial
    · cases c <;> first | exact hc.elim | exact trivial
    · cases c <;> first | exact hc.elim | exact trivial

/-- Taking a pin over ends with the lock released. -/
theorem removeEntry_reader (key : CacheKey) :
    Keeps (readDiscipline k) (· ≠ .handing) (removeEntry key) := by
  intro g hg
  refine ⟨hg, fun pinned _ => ?_⟩
  cases pinned
  · refine ⟨trivial, fun a _ => ?_⟩
    rcases a with e | ⟨⟩
    · exact ⟨trivial, fun _ _ => nofun⟩
    · exact ⟨trivial, fun _ _ => nofun⟩
  · refine ⟨trivial, fun a _ => ?_⟩
    rcases a with e | ⟨⟩
    · exact ⟨trivial, fun _ _ => nofun⟩
    · refine ⟨trivial, fun a _ => ?_⟩
      rcases a with e | ⟨⟩
      · exact ⟨trivial, fun _ _ => ⟨trivial, fun _ _ => nofun⟩⟩
      · exact ⟨trivial, fun _ _ => nofun⟩

/-- A job looks the slot up after its start. -/
theorem writeThrough_reader (job : WriteJob) (g : Reader) (hg : g ≠ .handing)
    (hstart : job.key = k → g = .started) :
    (writeThrough job).Follows (readDiscipline k) g fun _ g' => g' ≠ .handing := by
  refine ⟨⟨hstart, hg⟩, fun slot _ => ?_⟩
  rcases slot with _ | ⟨memPtr, n⟩
  · nofun
  · have hrest : Keeps (readDiscipline k) (· ≠ .handing) (writeReserved job memPtr) := by
      refine keeps_unhanded ⟨trivial, fun reserved => ?_⟩
      cases reserved with
      | none => exact trivial
      | some loc =>
        refine ⟨trivial, fun ok => ?_⟩
        cases ok <;> exact ⟨trivial, fun _ => trivial⟩
    refine hrest _ ?_
    show (if job.key = k then reading ⟨memPtr, n⟩ else .idle) ≠ .handing
    split_ifs <;> nofun

theorem runWriteJob_reader (job : WriteJob) :
    Keeps (readDiscipline k) (· ≠ .handing) (runWriteJob job) := by
  intro g hg
  have hsettle : ∀ written, Keeps (readDiscipline k) (· ≠ .handing)
      (settleWriteThrough job.key written) := fun written =>
    keeps_unhanded (by cases written <;> exact ⟨trivial, fun _ => trivial⟩)
  have hdiscard : ∀ written, Keeps (readDiscipline k) (· ≠ .handing)
      (discardWritten job.key written) := fun written => keeps_unhanded (by
    cases written
    · exact ⟨trivial, fun _ => trivial⟩
    · exact ⟨trivial, fun _ => ⟨trivial, fun _ => trivial⟩⟩)
  have hpins : ∀ c : PinCall, Unhanded (.pins c) → Keeps (readDiscipline k) (· ≠ .handing)
      (perform (.pins c) : Proc c.Answer) := fun c hc => keeps_unhanded ⟨hc, fun _ => trivial⟩
  refine ⟨hg, fun started ha => ?_⟩
  cases started with
  | stale => nofun
  | untracked =>
    have hwrite := writeThrough_reader (k := k) job .idle nofun fun hk => absurd rfl (ha.2 hk)
    refine hwrite.bind fun written g' hg' => ?_
    exact (hsettle written g' hg').bind fun _ g'' hg'' =>
      hpins (.recordWrite _ _) trivial g'' hg''
  | owned =>
    have hwrite := writeThrough_reader (k := k) job (if job.key = k then .started else .idle)
      (by split_ifs <;> nofun) fun hk => if_pos hk
    refine hwrite.bind fun written g' hg' => ?_
    refine (hpins (.finish job.key) trivial g' hg').bind fun owned g₁ h₁ => ?_
    cases owned
    · exact (hdiscard written g₁ h₁).bind fun _ g₂ h₂ => hpins (.settled _) trivial g₂ h₂
    · refine (hpins (.recordWrite _ _) trivial g₁ h₁).bind fun _ g₂ h₂ => ?_
      exact (hsettle written g₂ h₂).bind fun _ g₃ h₃ => hpins (.settled _) trivial g₃ h₃

end Proc

/-- Every procedure keeps to the discipline. -/
theorem body_follows_readDiscipline (k : CacheKey) (r : Request) :
    r.body.Follows (readDiscipline k) ((readDiscipline k).init r) fun _ g => g ≠ .handing := by
  by_cases hr : ∃ job birth, r = .writeJob job birth
  · obtain ⟨job, birth, rfl⟩ := hr
    have hdone : Keeps (readDiscipline k) (· ≠ .handing) (perform (.jobDone job.deviceIndex)) :=
      Proc.keeps_unhanded ⟨trivial, fun _ => trivial⟩
    exact ((Proc.runWriteJob_reader job).bind fun _ => hdone) .idle nofun
  · exact body_keeps_of_plain Proc.unhanded_plainlyKept Proc.removeEntry_reader
      (fun job birth h => hr ⟨job, birth, h⟩) _ nofun

/-! ## The invariant -/

/-- What is known of a procedure: its stake in the slot, its references, and where it is with the
bytes of the slot. -/
abbrev Watch := (Holding × Refs) × Reader

/-- The three disciplines of a key at once. -/
def watchDiscipline (k : CacheKey) : Discipline Request Call.Answer Watch :=
  ((slotDiscipline k).prod (refDiscipline k)).prod (readDiscipline k)

/-- The procedure is a job that has not written its slot yet. -/
def Reader.IsJob (g : Reader) : Prop := g = .started ∨ ∃ s, g = .reading s

theorem Reader.not_isJob_idle : ¬ idle.IsJob := by rintro (h | ⟨s, h⟩) <;> cases h

theorem Reader.not_isJob_handOn (g : Reader) : ¬ g.handOn.IsJob := by
  cases g <;> rintro (h | ⟨s, h⟩) <;> cases h

/-- The procedure takes a pin over. -/
def RefRole.Hands (r : RefRole) : Prop := r = .takes ∨ r = .dropped ∨ r = .cleared

/-- What is known of a procedure is in keeping with the view: a job reads the slot of the key, and a
removal that has cleared the entry is to free its slot, or to leave it to the job. -/
structure Watch.Fits (g : Watch) (v : KeyView) : Prop where
  reads : ∀ s, g.2 = .reading s → v.slot = some s
  job : g.2.IsJob → g.1.2.role = .owned
  hands : g.1.2.role.Hands → g.2 = .handing
  cleared : g.1.2.role = .cleared → v.entry = none ∧ g.1.1.stake = .owes

/-- The invariant of a key. -/
structure WriteInv (v : KeyView) (gs : List Watch) : Prop where
  fits : ∀ g ∈ gs, g.Fits v
  removed : v.pin.removed → v.entry = none
  /-- A job whose entry was removed has the slot for itself. -/
  orphan : v.pin.running → v.entry = none →
    v.slot ≠ none ∧ ∀ g ∈ gs, g.1.1.stake = .none ∨ g.1.2.role = .cleared

/-- What a call about the key asks for: a job that starts has a pin, or had one; while a job runs,
its entry is taken over only when no other procedure has a stake in the slot, and once the entry is
gone nobody but a removal tries to remove it, and no store looks for its slot. -/
def Sheltered (v : KeyView) (g : Holding) (r : Refs) (others : List Holding) : Call → Prop
  | .pins (.start _) => 0 < v.pin.stale ∨ v.pin.queued
  | .map (.remove _) => v.pin.running →
      (v.entry = none → g.removes) ∧ (r.role = .dropped → ∀ x ∈ others, x.stake = .none)
  | .tier (.get _) => v.pin.running → v.entry ≠ none
  | _ => True

/-! ## One call -/

theorem Refs.role_elsewhere (r : Refs) (c : Call) : (r.elsewhere c).role = r.role := by
  rcases c with c | c | c | c | _ <;> try rfl
  cases c <;> rfl

/-- An entry comes to be only when it is created, and goes only when it is removed, without
references. -/
theorem MapCall.Effect.presence {c : MapCall} {a : c.Answer} {e e' : Option DispatchEntry}
    (h : c.Effect a e e') : (e' = none ↔ e = none) ∨
      (e = none ∧ ∃ k p n, c = .createMemoryTierEntry k p n) ∨
      ∃ x, e = some x ∧ x.readRef = 0 ∧ x.writeRef = 0 ∧ ∃ k, c = .remove k := by
  rcases h.change with hstays | hnew | ⟨-, hgone⟩ | ⟨x, x', rfl, rfl, -⟩
  · left
    rw [← map_eq_none_iff, hstays, map_eq_none_iff]
  · exact .inr (.inl hnew)
  · exact .inr (.inr hgone)
  · simp

namespace WriteInv

variable {v v' : KeyView} {gs : List Watch} {i : ℕ} {w w' : Watch} {locked : Bool} {k : CacheKey}

/-- The stakes and the references of the procedures. -/
abbrev holdings (gs : List Watch) : List Holding := gs.map fun g => g.1.1

/-- The references of the procedures. -/
abbrev refs (gs : List Watch) : List Refs := gs.map fun g => g.1.2

theorem exists_role {rs : List Refs} {f : Refs → ℕ} (h : total f rs ≠ 0) : ∃ r ∈ rs, f r ≠ 0 := by
  induction rs with
  | nil => exact absurd rfl h
  | cons r rs ih =>
    by_cases hr : f r = 0
    · rw [total_cons, hr, Nat.zero_add] at h
      obtain ⟨r', hr', hf⟩ := ih h
      exact ⟨r', mem_cons_of_mem r hr', hf⟩
    · exact ⟨r, mem_cons_self, hr⟩

/-- An entry that is there was not cleared by anybody. -/
theorem cleared_eq_zero (h : WriteInv v gs) (hentry : v.entry ≠ none) :
    (tally (refs gs)).cleared = 0 := by
  by_contra hne
  obtain ⟨r, hr, hrole⟩ := exists_role hne
  obtain ⟨g, hg, rfl⟩ := mem_map.mp hr
  refine hentry ((h.fits g hg).cleared ?_).1
  by_contra hrole'
  exact hrole (if_neg hrole')

/-- The entry of a running job, as long as it is there, is in the memory tier. -/
theorem resident_of_running (h : WriteInv v gs) (href : RefInv v locked (tally (refs gs)))
    (hrunning : v.pin.running) (hentry : v.entry ≠ none) : v.pin.pinned ∧ v.Unwritten := by
  have hremoved : v.pin.removed = false := by
    cases hr : v.pin.removed with
    | false => rfl
    | true => exact absurd (h.removed hr) hentry
  have hcleared := h.cleared_eq_zero hentry
  have hrun := href.books.running
  have hsingle := href.books.single
  rw [hrunning, hremoved] at hrun
  have hpinned : v.pin.pinned := by
    cases hp : v.pin.pinned with
    | true => rfl
    | false =>
      rw [hp] at hrun
      cases hrun
  refine ⟨hpinned, href.unwritten ?_⟩
  unfold Pending
  simp only [hpinned, hcleared, Bool.toNat_true] at hsingle ⊢
  omega

theorem resident_of_unwritten (h : v.Unwritten) : v.Resident := by
  obtain ⟨e, p, n, he, hloc⟩ := h
  exact ⟨e, he, p, n, none, hloc⟩

/-- **Nobody frees the slot while the job runs.** -/
theorem no_free (h : WriteInv v gs) (hslot : SlotInv v (holdings gs))
    (href : RefInv v locked (tally (refs gs))) (hw : w ∈ gs) (hrunning : v.pin.running)
    (hstake : w.1.1.stake.mayFree) (hreader : w.2 ≠ .handing) : False := by
  by_cases hentry : v.entry = none
  · rcases (h.orphan hrunning hentry).2 w hw with hnone | hcleared
    · rw [hnone] at hstake
      cases hstake
    · exact hreader ((h.fits w hw).hands (.inr (.inr hcleared)))
  · have hres := resident_of_unwritten (h.resident_of_running href hrunning hentry).2
    exact (hslot.fits w.1.1 (mem_map.mpr ⟨w, hw, rfl⟩)).free hstake hres

/-- A job that has not written its slot yet is running. -/
theorem running_of_job (h : WriteInv v gs) (href : RefInv v locked (tally (refs gs)))
    {g : Watch} (hg : g ∈ gs) (hjob : g.2.IsJob) : v.pin.running := by
  have hrole := (h.fits g hg).job hjob
  have hjobs := href.books.jobs
  obtain ⟨j, hj⟩ := mem_iff_getElem?.mp (mem_map.mpr ⟨g, hg, rfl⟩ : g.1.2 ∈ refs gs)
  rw [tally_eq_add hj] at hjobs
  simp only [tally_add, hrole, if_true] at hjobs
  cases hr : v.pin.running with
  | true => rfl
  | false =>
    rw [hr] at hjobs
    simp at hjobs

end WriteInv

/-! ### The procedure that makes the call -/

namespace Watch.Fits

variable {v v' : KeyView} {w : Watch} {k : CacheKey}

/-- A procedure that is not taking a pin over and does not look a slot up. -/
theorem of_not_hands {w' : Watch} (hjob : ¬ w'.2.IsJob) (hhands : ¬ w'.1.2.role.Hands) :
    w'.Fits v where
  reads s hs := absurd (.inr ⟨s, hs⟩) hjob
  job hj := absurd hj hjob
  hands hh := absurd hh hhands
  cleared hc := absurd (.inr (.inr hc)) hhands

theorem of_handing {w' : Watch} (hreader : w'.2 = .handing)
    (hcleared : w'.1.2.role = .cleared → v.entry = none ∧ w'.1.1.stake = .owes) : w'.Fits v where
  reads s hs := nomatch hreader.symm.trans hs
  job hj := by
    rw [hreader] at hj
    exact absurd hj (not_isJob_handOn .handing)
  hands _ := hreader
  cleared := hcleared

theorem not_hands (h : w.Fits v) (hreader : w.2 ≠ .handing) : ¬ w.1.2.role.Hands := fun hh =>
  hreader (h.hands hh)

theorem map {c : MapCall} {a : c.Answer} (h : w.Fits v) (hreader : w.2.Allows k (.map c))
    (hrefs : w.1.2.Allows (.map c)) (heff : c.Effect a v.entry v'.entry) (r : Bool) :
    Watch.Fits ((⟨r, w.1.1.stake.afterMap r c a⟩, w.1.2.afterMap c a), w.2.after k (.map c) a)
      v' := by
  have hidle := not_isJob_idle
  have hon := w.2.not_isJob_handOn
  obtain ⟨⟨⟨removes, stake⟩, ⟨reads, role, locks⟩⟩, reader⟩ := w
  -- a procedure that takes a pin over makes three calls of the map only
  cases c with
  | takeRead key =>
    rcases hrefs with hrole | hrole <;> obtain rfl := hrole
    · obtain rfl : reader = .handing := h.hands (.inr (.inl rfl))
      rcases a with e | ⟨⟩ <;> exact of_handing rfl nofun
    · refine of_not_hands hon ?_
      rcases a with e | ⟨⟩ <;> rintro (h | h | h) <;> cases h
  | releaseRead key =>
    rcases hrefs with hrole | hrole | hrole | ⟨hrole, -⟩ <;> obtain rfl := hrole
    · obtain rfl : reader = .handing := h.hands (.inl rfl)
      rcases a with e | ⟨⟩ <;> exact of_handing rfl nofun
    all_goals
      refine of_not_hands hon ?_
      rcases a with e | ⟨⟩ <;> rintro (h | h | h) <;> cases h
  | remove key =>
    rcases hrefs with hrole | hrole <;> obtain rfl := hrole
    · obtain rfl : reader = .handing := h.hands (.inr (.inl rfl))
      rcases heff with ⟨rfl, -⟩ | ⟨rfl, -⟩ | ⟨rfl, hnone, -⟩
      · exact of_handing rfl nofun
      · exact of_handing rfl nofun
      · exact of_handing rfl fun _ => ⟨hnone, rfl⟩
    · refine of_not_hands hon ?_
      rcases a with e | ⟨⟩ <;> rintro (h | h | h) <;> cases h
  | lookup key =>
    obtain rfl : role = .none := hrefs
    refine of_not_hands hidle ?_
    rcases a with e | (_ | _ | _ | _) <;> rintro (h | h | h) <;> cases h
  | convertToStorage key offset =>
    refine of_not_hands hidle ?_
    rcases hrefs with hrole | hrole <;> obtain rfl := hrole
    all_goals rcases a with e | ⟨⟩ <;> rintro (h | h | h) <;> cases h
  | createMemoryTierEntry key p n =>
    obtain rfl : role = .none := hrefs
    refine of_not_hands hidle ?_
    rcases a with e | ⟨⟩ <;> rintro (h | h | h) <;> cases h
  | releaseWrite key =>
    refine of_not_hands hidle ?_
    rintro (h | h | h) <;> cases h
  | downgradeReference key =>
    obtain rfl : role = .writes := hrefs
    refine of_not_hands hidle ?_
    rcases a with e | ⟨⟩ <;> rintro (h | h | h) <;> cases h
  | convertMemoryTierToBlock key | promoteBlockToMemoryTier key p n | tryEvictToBlock key
  | entrySize key | oldestKeys n => exact of_not_hands hidle (h.not_hands hreader)

theorem tier {c : TierCall} {a : c.Answer} (h : w.Fits v) (hreader : w.2.Allows k (.tier c))
    (hk : c.key = some k) (heff : c.Effect a v.slot v'.slot) (r : Bool) :
    Watch.Fits ((⟨r, w.1.1.stake.afterTier c a⟩, w.1.2), w.2.after k (.tier c) a) v' := by
  have hidle := not_isJob_idle
  cases c with
  | peek key =>
    obtain rfl : key = k := some.inj hk
    obtain ⟨hslot, ha⟩ := heff
    rcases a with _ | ⟨p, n⟩
    · exact of_not_hands hidle (h.not_hands hreader.2)
    · have hread : w.2.after key (.tier (.peek key)) (some (p, n)) = .reading ⟨p, n⟩ :=
        if_pos rfl
      have hrole : w.1.2.role = .owned := h.job (.inl (hreader.1 rfl))
      rw [hread]
      refine ⟨fun s hs => ?_, fun _ => hrole, fun hh => absurd hh (h.not_hands hreader.2),
        fun hc => absurd (.inr (.inr hc)) (h.not_hands hreader.2)⟩
      cases hs
      obtain ⟨x, hx, heq⟩ := map_eq_some_iff.mp ha.symm
      cases heq
      rw [hslot, hx]
  | insert key n | get key | remove key | contains key | usage | oldestKeys n =>
    exact of_not_hands hidle (h.not_hands hreader)

theorem pins {c : PinCall} {a : c.Answer} (h : w.Fits v) (hreader : w.2.Allows k (.pins c))
    (hrefs : w.1.2.Allows (.pins c)) (hk : c.key = k) (r : Bool) :
    Watch.Fits ((⟨r, w.1.1.stake.afterPins c a⟩, w.1.2.afterPins c a), w.2.after k (.pins c) a)
      v' := by
  have hidle := not_isJob_idle
  obtain ⟨⟨⟨removes, stake⟩, ⟨reads, role, locks⟩⟩, reader⟩ := w
  cases c with
  | start key =>
    obtain rfl : key = k := hk
    obtain rfl : role = .none := hrefs
    cases a with
    | owned =>
      have hstart : reader.after key (.pins (.start key)) .owned = .started := if_pos rfl
      rw [hstart]
      exact ⟨fun s hs => (by cases hs), fun _ => rfl,
        fun hh => (by rcases hh with h | h | h <;> cases h), nofun⟩
    | stale | untracked =>
      refine of_not_hands hidle ?_
      rintro (h | h | h) <;> cases h
  | takeOver key =>
    obtain rfl : key = k := hk
    obtain rfl : role = .none := hrefs
    cases a with
    | true =>
      have hhand : reader.after key (.pins (.takeOver key)) true = .handing := if_pos rfl
      rw [hhand]
      exact of_handing rfl nofun
    | false =>
      refine of_not_hands hidle ?_
      rintro (h | h | h) <;> cases h
  | finish key =>
    refine of_not_hands hidle ?_
    cases a <;> rintro (h | h | h) <;> cases h
  | recordWrite key landed =>
    have hrole := h.not_hands hreader
    refine of_not_hands hidle ?_
    cases role <;> first | exact hrole | (rintro (h | h | h) <;> cases h)
  | pin job | settled key | tookOver key | gaveUp key =>
    refine of_not_hands hidle ?_
    rintro (h | h | h) <;> cases h

variable {c : Call}

/-- A call that is not about the key makes no job of a procedure, and no other job of a job. -/
theorem reading_elsewhere {a : c.Answer} {g : Reader} (hk : c.key ≠ some k) :
    (g.after k c a).IsJob → g.after k c a = g := by
  have hne : ∀ key, some key ≠ some k → key ≠ k := fun key h heq => h (congrArg some heq)
  have hidle := not_isJob_idle
  have hon := g.not_isJob_handOn
  intro hjob
  rcases c with c | c | c | c | _
  case map => cases c <;> first | exact absurd hjob hon | exact absurd hjob hidle
  case tier =>
    cases c
    case peek key =>
      rcases a with _ | ⟨p, n⟩
      · exact absurd hjob hidle
      · have hother : g.after k (.tier (.peek key)) (some (p, n)) = .idle := if_neg (hne key hk)
        rw [hother] at hjob
        exact absurd hjob hidle
    all_goals exact absurd hjob hidle
  case pins =>
    cases c
    case start key =>
      cases a with
      | owned =>
        have hother : g.after k (.pins (.start key)) .owned = .idle := if_neg (hne key hk)
        rw [hother] at hjob
        exact absurd hjob hidle
      | stale | untracked => exact absurd hjob hidle
    case takeOver key =>
      cases a with
      | true =>
        have hother : g.after k (.pins (.takeOver key)) true = .idle := if_neg (hne key hk)
        rw [hother] at hjob
        exact absurd hjob hidle
      | false => exact absurd hjob hidle
    all_goals exact absurd hjob hidle
  case extents =>
    cases c
    case reserve job =>
      cases a with
      | none => exact absurd hjob hidle
      | some loc =>
        cases g with
        | reading s => rfl
        | _ => exact absurd hjob hidle
    all_goals exact absurd hjob hidle
  all_goals exact absurd hjob hidle

theorem elsewhere {a : c.Answer} (h : w.Fits v) (hreader : w.2.Allows k c)
    (hrefs : w.1.2.AllowsElsewhere c) (hk : c.key ≠ some k) (r : Bool) :
    Watch.Fits ((⟨r, w.1.1.stake.elsewhere r c⟩, w.1.2.elsewhere c), w.2.after k c a) v := by
  have hrole := w.1.2.role_elsewhere c
  by_cases hhands : w.1.2.role.Hands
  · -- it goes on to take the pin over
    have hhanding := h.hands hhands
    rw [hhanding] at hreader ⊢
    have hgoes : handing.after k c a = .handing ∧
        (w.1.1.stake = .owes → w.1.1.stake.elsewhere r c = .owes) := by
      rcases c with c | c | c | c | _
      case map =>
        cases c
        case takeRead | releaseRead | remove => exact ⟨rfl, fun howes => by rw [howes]; rfl⟩
        all_goals exact absurd rfl hreader
      case tier =>
        cases c
        case peek => exact absurd rfl hreader.2
        all_goals exact absurd rfl hreader
      case pins =>
        cases c
        case tookOver | gaveUp =>
          rcases hhands with hr | hr | hr <;> rw [hrefs.1] at hr <;> cases hr
        all_goals exact absurd rfl hreader
      all_goals exact absurd rfl hreader
    rw [hgoes.1]
    exact of_handing rfl fun hc =>
      ⟨(h.cleared (hrole ▸ hc)).1, hgoes.2 (h.cleared (hrole ▸ hc)).2⟩
  · refine ⟨fun s hs => ?_, fun hj => ?_, fun hh => absurd (hrole ▸ hh) hhands,
      fun hc => absurd (.inr (.inr (hrole ▸ hc))) hhands⟩
    · have hsame := reading_elsewhere (a := a) (g := w.2) hk (.inr ⟨s, hs⟩)
      exact h.reads s (hsame ▸ hs)
    · have hsame := reading_elsewhere (a := a) (g := w.2) hk hj
      exact hrole.trans (h.job (hsame ▸ hj))

/-- What is known of a procedure stays in keeping with a view that has the same slot, if the
procedure reads it, and no new entry, if it has cleared the old one. -/
theorem mono (h : w.Fits v) (hslot : ∀ s, w.2 = .reading s → v'.slot = v.slot)
    (hentry : w.1.2.role = .cleared → v'.entry = none) : w.Fits v' where
  reads s hs := (hslot s hs).trans (h.reads s hs)
  job := h.job
  hands := h.hands
  cleared hc := ⟨hentry hc, (h.cleared hc).2⟩

end Watch.Fits

/-! ### All procedures -/

namespace WriteInv

variable {v v' : KeyView} {gs : List Watch} {i : ℕ} {w : Watch} {locked locked' writer : Bool}
  {k : CacheKey}

/-- After a call, the invariant has to be shown of the caller, of the others and of the view. -/
theorem set {w' : Watch} (h : WriteInv v gs) (hself : w'.Fits v')
    (hslot : ∀ g ∈ gs.eraseIdx i, ∀ s, g.2 = .reading s → v'.slot = v.slot)
    (hentry : ∀ g ∈ gs.eraseIdx i, g.1.2.role = .cleared → v'.entry = none)
    (hremoved : v'.pin.removed → v'.entry = none)
    (horphan : v'.pin.running → v'.entry = none →
      v'.slot ≠ none ∧ (w'.1.1.stake = .none ∨ w'.1.2.role = .cleared) ∧
        ∀ g ∈ gs.eraseIdx i, g.1.1.stake = .none ∨ g.1.2.role = .cleared) :
    WriteInv v' (gs.set i w') where
  fits g hg := by
    rcases mem_set_cases hg with rfl | hg
    · exact hself
    · exact (h.fits g (mem_of_mem_eraseIdx hg)).mono (hslot g hg) (hentry g hg)
  removed := hremoved
  orphan hrunning hnone := by
    obtain ⟨hslot', hown, hothers⟩ := horphan hrunning hnone
    refine ⟨hslot', fun g hg => ?_⟩
    rcases mem_set_cases hg with rfl | hg
    · exact hown
    · exact hothers g hg

variable {c : MapCall}

/-- A procedure without a stake has none after a call that finds no entry. -/
theorem stake_map {a : c.Answer} {e' : Option DispatchEntry} {r : Bool}
    (hallows : Stake.none.Allows (.map c)) (heff : c.Effect a none e')
    (hremove : ∀ key, c = .remove key → r) : Stake.none.afterMap r c a = .none := by
  cases c with
  | lookup key =>
    rcases heff with ⟨rfl, -⟩ | ⟨⟨e, rfl⟩, -⟩ | ⟨x, hx, -⟩
    · cases r <;> rfl
    · cases r <;> rfl
    · cases hx
  | remove key =>
    obtain rfl := hremove key rfl
    rcases heff with ⟨rfl, -⟩ | ⟨-, -, x, hx, -⟩ | ⟨-, -, x, hx, -⟩
    · rfl
    · cases hx
    · cases hx
  | createMemoryTierEntry key p n =>
    obtain ⟨s, hs, -⟩ := hallows
    rcases hs with hs | hs <;> cases hs
  | convertMemoryTierToBlock key =>
    obtain ⟨s, hs⟩ := hallows
    cases hs
  | promoteBlockToMemoryTier key p n => cases hallows
  | tryEvictToBlock key =>
    rcases heff with ⟨⟨e, rfl⟩, -⟩ | ⟨-, x, hx, -⟩
    · rfl
    · cases hx
  | entrySize key =>
    obtain ⟨-, rfl⟩ := heff
    rfl
  | takeRead key | releaseRead key | releaseWrite key | downgradeReference key
  | convertToStorage key offset | oldestKeys n => rfl

/-- The ledger knows of no more running jobs, unless one starts. -/
theorem running_pins {c : PinCall} {a : c.Answer} {p p' : PinState}
    (heff : c.Effect writer a p p') (hrunning : p'.running) :
    (p.running ∧ ∀ key, c ≠ .finish key) ∨ ∃ key, c = .start key ∧ p.queued := by
  have hforgets : ∀ {q : PinState}, q.Forgets p' → q.running := by
    rintro q (rfl | ⟨-, rfl⟩)
    · exact hrunning
    · cases hrunning
  cases c with
  | start key =>
    rcases heff with ⟨-, -, hf⟩ | ⟨-, -, -, rfl⟩ | ⟨-, -, hqueued, -⟩
    · have hrunning' := hforgets hf
      exact .inl ⟨hrunning', nofun⟩
    · exact .inl ⟨hrunning, nofun⟩
    · exact .inr ⟨key, rfl, hqueued⟩
  | finish key =>
    rw [heff.2] at hrunning
    cases hrunning
  | pin job =>
    have heff : p' = _ := heff
    rw [heff] at hrunning
    exact .inl ⟨hrunning, nofun⟩
  | settled key => exact .inl ⟨hforgets heff, nofun⟩
  | takeOver key => exact .inl ⟨heff.2 ▸ hrunning, nofun⟩
  | tookOver key =>
    have hrunning' := hforgets heff.2
    exact .inl ⟨hrunning', nofun⟩
  | gaveUp key | recordWrite key landed => exact .inl ⟨heff ▸ hrunning, nofun⟩

variable (h : WriteInv v gs) (hw : gs[i]? = some w) (href : RefInv v locked (tally (refs gs)))
include h hw href

/-- **A call of the dispatch map** about the key. -/
theorem step_map {a : c.Answer} (hslots : SlotInv v (holdings gs))
    (hstake : w.1.1.stake.Allows (.map c)) (hrefs : w.1.2.Allows (.map c))
    (hreader : w.2.Allows k (.map c)) (hx : Exclusive v (holdings (gs.eraseIdx i)) (.map c))
    (hacc : Accounted v w.1.2 (tally (refs (gs.eraseIdx i))) (.map c))
    (hshelter : Sheltered v w.1.1 w.1.2 (holdings (gs.eraseIdx i)) (.map c))
    (heff : c.Effect a v.entry v'.entry) (hslot : v'.slot = v.slot) (hpin : v'.pin = v.pin) :
    WriteInv v' (gs.set i ((⟨w.1.1.removes, w.1.1.stake.afterMap w.1.1.removes c a⟩,
      w.1.2.afterMap c a), w.2.after k (.map c) a)) := by
  have hmem : w ∈ gs := mem_of_getElem? hw
  have hfits := h.fits w hmem
  -- a new entry is published only while nobody may free the slot
  have hgains : v.entry = none → v'.entry ≠ none →
      (∀ g ∈ gs.eraseIdx i, g.1.1.stake.mayFree = false) ∧ v.pin.removed = false := by
    intro hnone hsome
    rcases heff.presence with hiff | ⟨-, key, p, n, rfl⟩ | ⟨x, hx, -⟩
    · exact absurd (hiff.mpr hnone) hsome
    swap
    · exact nomatch hnone.symm.trans hx
    exact ⟨fun g hg => hx.1 _ (mem_map.mpr ⟨g, hg, rfl⟩), hx.2.1⟩
  refine h.set (hfits.map hreader hrefs heff _) (fun _ _ _ _ => hslot) (fun g hg hrole => ?_)
    (fun hr => ?_) fun hrunning hnone' => ?_
  · obtain ⟨hnone, howes⟩ := (h.fits g (mem_of_mem_eraseIdx hg)).cleared hrole
    by_contra hsome
    have hfree := (hgains hnone hsome).1 g hg
    rw [howes] at hfree
    cases hfree
  · rw [hpin] at hr
    have hnone := h.removed hr
    by_contra hsome
    rw [(hgains hnone hsome).2] at hr
    cases hr
  · rw [hpin] at hrunning
    rw [hslot]
    cases hentry : v.entry with
    | none =>
      obtain ⟨hslot', hall⟩ := h.orphan hrunning hentry
      refine ⟨hslot', .inl ?_, fun g hg => hall g (mem_of_mem_eraseIdx hg)⟩
      rcases hall w hmem with hstake' | hrole
      · rw [hstake'] at hstake ⊢
        rw [hentry] at heff
        refine stake_map hstake heff fun key hc => ?_
        subst hc
        exact (hshelter hrunning).1 hentry
      · -- a procedure that has cleared the entry makes no call of the map
        exfalso
        rw [hfits.hands (.inr (.inr hrole))] at hreader
        cases c
        case takeRead =>
          rcases hrefs with hr | hr <;> rw [hrole] at hr <;> cases hr
        case remove =>
          rcases hrefs with hr | hr <;> rw [hrole] at hr <;> cases hr
        case releaseRead =>
          rcases hrefs with hr | hr | hr | ⟨hr, -⟩ <;> rw [hrole] at hr <;> cases hr
        all_goals exact hreader rfl
    | some x =>
      have hsome : v.entry ≠ none := by rw [hentry]; nofun
      obtain ⟨hpinned, hunwritten⟩ := h.resident_of_running href hrunning hsome
      have hcleared := h.cleared_eq_zero hsome
      obtain ⟨e, p, n, he, hloc⟩ := hunwritten
      have howns := hslots.owns e p n none he hloc
      have hexact := href.books.exact
      obtain ⟨x', hx', hr, -, key, rfl⟩ := (heff.presence.resolve_left fun hiff =>
        hsome (hiff.mp hnone')).resolve_left fun h => hsome h.1
      cases hentry.symm.trans hx'
      rw [hentry, hnone'] at heff
      rcases heff with ⟨-, heq, -⟩ | ⟨-, heq, -⟩ | ⟨rfl, -⟩
      · cases heq
      · cases heq
      rcases hrefs with hrole | hrole
      · refine ⟨by rw [howns]; nofun, .inr ?_, fun g hg => .inl ?_⟩
        · show (w.1.2.afterMap (.remove key) (.ok ())).role = .cleared
          simp only [Refs.afterMap, hrole]
        · exact (hshelter hrunning).2 hrole _ (mem_map.mpr ⟨g, hg, rfl⟩)
      · -- the reference of the pin is still there
        exfalso
        have hother : (tally (refs (gs.eraseIdx i))).dropped = 0 := hacc
        have hi : (refs gs)[i]? = some w.1.2 := by
          rw [getElem?_map, hw]
          rfl
        rw [readRef_some hentry, hr, tally_eq_add hi] at hexact
        rw [tally_eq_add hi] at hcleared
        rw [show (refs gs).eraseIdx i = refs (gs.eraseIdx i) from eraseIdx_map ..]
          at hexact hcleared
        simp only [tally_add, hrole, hpinned, reduceCtorEq, if_false,
          Bool.toNat_true] at hexact hcleared
        omega

/-- **A call of the memory tier** about the key. -/
theorem step_tier {c : TierCall} {a : c.Answer} (hslots : SlotInv v (holdings gs))
    (hstake : w.1.1.stake.Allows (.tier c)) (hreader : w.2.Allows k (.tier c))
    (hshelter : Sheltered v w.1.1 w.1.2 (holdings (gs.eraseIdx i)) (.tier c))
    (hk : c.key = some k) (heff : c.Effect a v.slot v'.slot) (hentry : v'.entry = v.entry)
    (hpin : v'.pin = v.pin) (r : Bool) :
    WriteInv v' (gs.set i ((⟨r, w.1.1.stake.afterTier c a⟩, w.1.2), w.2.after k (.tier c) a)) := by
  have hmem : w ∈ gs := mem_of_getElem? hw
  have hfits := h.fits w hmem
  have hnothanding : w.2 ≠ .handing := by
    cases c <;> first | exact hreader.2 | exact hreader
  -- the slot stays as it is while the job runs
  have hstays : v.pin.running → v.slot ≠ none → v'.slot = v.slot := by
    intro hrunning hsome
    cases c with
    | insert key n =>
      rcases heff with ⟨-, heq⟩ | ⟨p, -, -, hnone, -⟩
      · exact heq
      · exact absurd hnone hsome
    | remove key =>
      refine (h.no_free hslots href hmem hrunning ?_ hnothanding).elim
      rcases hstake with ⟨s, hs⟩ | hs | hs <;> rw [hs] <;> rfl
    | get key | peek key | contains key => exact heff.1
    | usage | oldestKeys n => exact heff
  refine h.set (hfits.tier hreader hk heff r) (fun g hg s hs => ?_)
    (fun g hg hrole => ?_) (fun hr => ?_) fun hrunning hnone => ?_
  · have hg' := mem_of_mem_eraseIdx hg
    refine hstays (h.running_of_job href hg' (.inr ⟨s, hs⟩)) ?_
    rw [(h.fits g hg').reads s hs]
    nofun
  · rw [hentry]
    exact ((h.fits g (mem_of_mem_eraseIdx hg)).cleared hrole).1
  · rw [hentry]
    exact h.removed (hpin ▸ hr)
  · rw [hpin] at hrunning
    rw [hentry] at hnone
    obtain ⟨hslot, hall⟩ := h.orphan hrunning hnone
    refine ⟨by rw [hstays hrunning hslot]; exact hslot, .inl ?_,
      fun g hg => hall g (mem_of_mem_eraseIdx hg)⟩
    have hnone' : w.1.1.stake = .none := by
      refine (hall w hmem).resolve_right fun hrole => ?_
      exact hnothanding (hfits.hands (.inr (.inr hrole)))
    rw [hnone'] at hstake ⊢
    cases c with
    | insert key n =>
      rcases heff with ⟨⟨e, rfl⟩, -⟩ | ⟨p, -, -, hempty, -⟩
      · rfl
      · exact absurd hempty hslot
    | get key => exact absurd hnone (hshelter hrunning)
    | remove key => rcases hstake with ⟨s, hs⟩ | hs | hs <;> cases hs
    | peek key | contains key | usage | oldestKeys n => rfl

/-- **A call of the ledger** about the key. -/
theorem step_pins {c : PinCall} {a : c.Answer} (hsound : ∀ g ∈ refs gs, g.Sound)
    (hstake : w.1.1.stake.Allows (.pins c)) (hrefs : w.1.2.Allows (.pins c))
    (hreader : w.2.Allows k (.pins c)) (hk : c.key = k) (heff : c.Effect writer a v.pin v'.pin)
    (hentry : v'.entry = v.entry) (hslot : v'.slot = v.slot) (hlock : c.Locks locked locked')
    (r : Bool) :
    WriteInv v' (gs.set i ((⟨r, w.1.1.stake.afterPins c a⟩, w.1.2.afterPins c a),
      w.2.after k (.pins c) a)) := by
  have hmem : w ∈ gs := mem_of_getElem? hw
  have hfits := h.fits w hmem
  refine h.set (hfits.pins hreader hrefs hk r) (fun _ _ _ _ => hslot)
    (fun g hg hrole => ?_) (fun hr => ?_) fun hrunning hnone => ?_
  · rw [hentry]
    exact ((h.fits g (mem_of_mem_eraseIdx hg)).cleared hrole).1
  · rw [hentry]
    rcases SlotInv.removed_of_pins heff hr with hr | ⟨key, rfl⟩
    · exact h.removed hr
    · exact (hfits.cleared hrefs.1).1
  · rw [hentry] at hnone
    rw [hslot]
    rcases running_pins heff hrunning with ⟨hrunning, hnotfinish⟩ | ⟨key, rfl, hqueued⟩
    · obtain ⟨hslot', hall⟩ := h.orphan hrunning hnone
      refine ⟨hslot', .inl ?_, fun g hg => hall g (mem_of_mem_eraseIdx hg)⟩
      rcases hall w hmem with hnostake | hrole
      · rw [hnostake] at hstake ⊢
        cases c with
        | tookOver key => cases hstake
        | finish key => exact absurd rfl (hnotfinish key)
        | pin job | start key | settled key | takeOver key | gaveUp key | recordWrite key landed =>
          rfl
      · -- the removal is complete: the slot is left to the job
        rw [hfits.hands (.inr (.inr hrole))] at hreader
        cases c with
        | tookOver key =>
          obtain ⟨rfl, -⟩ := heff
          rw [hrunning]
          rfl
        | gaveUp key => rcases hrefs.1 with hr | hr <;> rw [hrole] at hr <;> cases hr
        | pin job | start key | finish key | settled key | takeOver key | recordWrite key landed =>
          exact absurd rfl hreader
    · -- a job starts while its entry is there
      exfalso
      obtain ⟨rfl, -⟩ := hlock
      have hledger := ledger_le_locks hsound
      have hlocks := href.books.lock
      have hq := href.books.queued.1
      have hpinned := Bool.toNat_le v.pin.pinned
      have hsingle := href.books.single
      obtain ⟨e, p, n, he, -⟩ := href.unwritten (by
        unfold Pending
        simp only [Tally.ledger, hqueued, Bool.toNat_true, Bool.toNat_false] at *
        omega)
      rw [hnone] at he
      cases he

omit href in
theorem step_elsewhere {c : Call} {a : c.Answer} (hrefs : w.1.2.AllowsElsewhere c)
    (hreader : w.2.Allows k c) (hk : c.key ≠ some k) (r : Bool) :
    WriteInv v (gs.set i ((⟨r, w.1.1.stake.elsewhere r c⟩, w.1.2.elsewhere c),
      w.2.after k c a)) := by
  have hmem : w ∈ gs := mem_of_getElem? hw
  have hfits := h.fits w hmem
  have hrole := w.1.2.role_elsewhere c
  refine h.set (hfits.elsewhere hreader hrefs hk r) (fun _ _ _ _ => rfl)
    (fun g hg hc => ((h.fits g (mem_of_mem_eraseIdx hg)).cleared hc).1) h.removed
    fun hrunning hnone => ?_
  obtain ⟨hslot, hall⟩ := h.orphan hrunning hnone
  refine ⟨hslot, ?_, fun g hg => hall g (mem_of_mem_eraseIdx hg)⟩
  refine (hall w hmem).imp (fun hstake => ?_) fun hc => hrole.trans hc
  rw [hstake]
  unfold Stake.elsewhere
  split
  · split_ifs <;> rfl
  · rfl

end WriteInv

/-! ## Whole runs -/

/-- What the steps are asked for, besides being uncrossed and bookkept. -/
def Shelters (s : System) : SystemMove → Prop
  | .spawn _ => True
  | .step i _ =>
    match s.threads[i]? with
    | none => True
    | some th =>
      match th.next with
      | none => True
      | some c =>
        match c.key with
        | none => True
        | some k =>
          Sheltered (s.shared.view k) (th.ghost (slotDiscipline k))
            (th.ghost (refDiscipline k)) ((s.ghosts (slotDiscipline k)).eraseIdx i) c

instance (v : KeyView) (g : Holding) (r : Refs) (others : List Holding) (c : Call) :
    Decidable (Sheltered v g r others c) := by
  rcases c with c | c | c | c | _ <;> try cases c
  all_goals
    dsimp only [Sheltered]
    infer_instance

instance (s : System) (m : SystemMove) : Decidable (Shelters s m) :=
  match m with
  | .spawn _ => instDecidableTrue
  | .step i _ => by
    dsimp only [Shelters]
    generalize s.threads[i]? = thread
    exact match thread with
      | none => instDecidableTrue
      | some th => by
        dsimp only
        generalize th.next = call
        exact match call with
          | none => instDecidableTrue
          | some c => by
            dsimp only
            generalize c.key = key
            exact match key with
              | none => instDecidableTrue
              | some k => inferInstance

/-- **What the steps of a sheltered run are asked for.** -/
def ShelteredStep (s : System) (m : SystemMove) : Prop :=
  Uncrossed s m ∧ Bookkept s m ∧ Shelters s m

instance (s : System) (m : SystemMove) : Decidable (ShelteredStep s m) :=
  inferInstanceAs (Decidable (_ ∧ _ ∧ _))

variable {c : Call} {i : ℕ} {k : CacheKey} {o : Oracle} {past : List (Sigma Call.Answer)}
  {r : Request} {s : System}

/-- What a sheltered step asks of a call about `k`. -/
theorem Shelters.sheltered {f : c.Answer → Proc Unit} (h : Shelters s (.step i o))
    (hi : s.threads[i]? = some ⟨r, .call c f, past⟩) (hk : c.key = some k) :
    Sheltered (s.shared.view k) (trace (slotDiscipline k) ⟨r, .call c f, past⟩)
      (trace (refDiscipline k) ⟨r, .call c f, past⟩)
      ((s.ghosts (slotDiscipline k)).eraseIdx i) c := by
  simpa [Shelters, hi, Thread.next, ghost, hk] using h

/-- The stakes and the references among what is known of the procedures. -/
theorem watch_ghosts (s : System) (k : CacheKey) :
    WriteInv.holdings (s.ghosts (watchDiscipline k)) = s.ghosts (slotDiscipline k) ∧
      WriteInv.refs (s.ghosts (watchDiscipline k)) = s.ghosts (refDiscipline k) := by
  have houter := (Pool.ghosts_prod ((slotDiscipline k).prod (refDiscipline k))
    (readDiscipline k) s).1
  obtain ⟨hslot, href⟩ := Pool.ghosts_prod (slotDiscipline k) (refDiscipline k) s
  rw [← hslot, ← href, ← houter, List.map_map, List.map_map]
  exact ⟨rfl, rfl⟩

theorem expects_of_sheltered {v : KeyView} {g : Holding} {r : Refs} {others : List Holding}
    {c : PinCall} {a : c.Answer} {writer : Bool} {p' : PinState}
    (h : Sheltered v g r others (.pins c)) (heff : c.Effect writer a v.pin p') :
    Reader.Expects k (.pins c) a := by
  cases c with
  | start key =>
    rintro - rfl
    rcases heff with ⟨heq, -⟩ | ⟨-, hstale, hqueued, -⟩ | ⟨heq, -⟩
    · cases heq
    · rcases h with hs | hq
      · omega
      · rw [hqueued] at hq
        cases hq
    · cases heq
  | pin job | finish key | settled key | takeOver key | tookOver key | gaveUp key
  | recordWrite key landed => exact trivial

theorem watch_after (hk : c.key = some k) (w : Watch) (a : c.Answer) :
    (watchDiscipline k).after w c a
      = ((⟨w.1.1.removes, w.1.1.stake.after w.1.1.removes c a⟩, w.1.2.after c a),
        w.2.after k c a) := by
  have hslot : (slotDiscipline k).after w.1.1 c a
      = ⟨w.1.1.removes, w.1.1.stake.after w.1.1.removes c a⟩ := by
    show Holding.after k _ c a = _
    rw [Holding.after, if_pos hk]
  have href : (refDiscipline k).after w.1.2 c a = w.1.2.after c a := if_pos hk
  rw [← hslot, ← href]
  rfl

theorem watch_after_of_ne (hk : c.key ≠ some k) (w : Watch) (a : c.Answer) :
    (watchDiscipline k).after w c a
      = ((⟨w.1.1.removes, w.1.1.stake.elsewhere w.1.1.removes c⟩, w.1.2.elsewhere c),
        w.2.after k c a) := by
  have hslot : (slotDiscipline k).after w.1.1 c a
      = ⟨w.1.1.removes, w.1.1.stake.elsewhere w.1.1.removes c⟩ := by
    show Holding.after k _ c a = _
    rw [Holding.after, if_neg hk]
  have href : (refDiscipline k).after w.1.2 c a = w.1.2.elsewhere c := if_neg hk
  rw [← hslot, ← href]
  rfl

/-- **A call**, about the key or not, keeps the invariant of the key. -/
theorem writeInv_call {f : c.Answer → Proc Unit} {a : c.Answer} {σ' : Shared} {w : Watch}
    (h : WriteInv (s.shared.view k) (s.ghosts (watchDiscipline k)))
    (hslots : SlotInv (s.shared.view k) (s.ghosts (slotDiscipline k)))
    (hrefs : RefsKept k s.shared (s.ghosts (refDiscipline k)))
    (hguard : ShelteredStep s (.step i o)) (hi : s.threads[i]? = some ⟨r, .call c f, past⟩)
    (hw : trace (watchDiscipline k) ⟨r, .call c f, past⟩ = w)
    (hallowed : (watchDiscipline k).allowed w c) (hexec : c.exec o s.shared = some (a, σ')) :
    (watchDiscipline k).possible w c a ∧
      WriteInv (σ'.view k)
        ((s.ghosts (watchDiscipline k)).set i ((watchDiscipline k).after w c a)) := by
  obtain ⟨huncrossed, hbookkept, hshelters⟩ := hguard
  have hget : (s.ghosts (watchDiscipline k))[i]? = some w := hw ▸ Pool.ghosts_getElem? hi
  have hx := fun hk => huncrossed.exclusive (k := k) hi hk
  have hacc := fun hk => hbookkept.accounted (k := k) hi hk
  have hshelter := fun hk => hshelters.sheltered (k := k) hi hk
  have hgetSlot : (s.ghosts (slotDiscipline k))[i]? = some (trace (slotDiscipline k) _) :=
    Pool.ghosts_getElem? hi
  have hgetRef : (s.ghosts (refDiscipline k))[i]? = some (trace (refDiscipline k) _) :=
    Pool.ghosts_getElem? hi
  obtain ⟨⟨hold, refs⟩, reader⟩ := w
  obtain ⟨hpair, -⟩ := Prod.mk.inj ((trace_prod ..).symm.trans hw)
  obtain ⟨rfl, rfl⟩ := Prod.mk.inj ((trace_prod ..).symm.trans hpair)
  obtain ⟨⟨hallowSlot, hallowRef⟩, hallowRead⟩ := hallowed
  have hslotPossible := (slotInv_call hslots hgetSlot hallowSlot hx hexec).1
  have hrefPossible := (refsKept_call hrefs hgetRef hallowRef hacc hexec).1
  have hgen := genuine_exec hexec
  have hlock := lock_exec hexec
  obtain ⟨hholdings, hrefsEq⟩ := watch_ghosts s k
  obtain ⟨href, hsound⟩ := hrefs
  rw [← hrefsEq] at href hsound
  rw [← hholdings] at hslots
  by_cases hk : c.key = some k
  · have heff := view_exec hexec hk
    have hx := hx hk
    have hacc := hacc hk
    have hshelter := hshelter hk
    rw [← hholdings, eraseIdx_map] at hx hshelter
    rw [← hrefsEq, eraseIdx_map] at hacc
    have hallowSlot := hallowSlot hk
    have hallowRef := hallowRef.1 hk
    rw [watch_after hk]
    suffices hstep : Reader.Expects k c a ∧ _ from
      ⟨⟨⟨hslotPossible, hrefPossible⟩, hgen, hstep.1⟩, hstep.2⟩
    cases c
    case map c =>
      obtain ⟨heff, hslot, hpin⟩ := heff
      exact ⟨trivial, h.step_map hget href hslots hallowSlot hallowRef hallowRead hx hacc
        hshelter heff hslot hpin⟩
    case tier c =>
      obtain ⟨heff, hentry, hpin⟩ := heff
      exact ⟨trivial, h.step_tier hget href hslots hallowSlot hallowRead hshelter hk heff hentry
        hpin _⟩
    case pins c =>
      obtain ⟨heff, hentry, hslot⟩ := heff
      exact ⟨expects_of_sheltered hshelter heff, h.step_pins hget href hsound hallowSlot hallowRef
        hallowRead (some.inj hk) heff hentry hslot hlock _⟩
    all_goals cases hk
  · rw [watch_after_of_ne hk, view_exec_of_ne hexec hk]
    refine ⟨⟨⟨hslotPossible, hrefPossible⟩, hgen, ?_⟩,
      h.step_elsewhere hget (hallowRef.2 hk) hallowRead hk _⟩
    rcases c with c | c | c | c | _ <;> try exact trivial
    cases c
    case start key => exact fun heq => absurd (congrArg some heq) hk
    all_goals exact trivial

/-- Along a sheltered run, the invariant of every key holds. -/
theorem disciplined_watch (k : CacheKey) {capacity numDrives blockSize : ℕ}
    {extents : OrdMap UInt64 Extent} {disk : Bytes} {ms : List SystemMove} {t : System}
    (hrun : Run machine.step ShelteredStep
      (System.init capacity numDrives blockSize extents disk) ms t) :
    Disciplined (watchDiscipline k) (fun g => (True ∧ Proc.Holds 0 g.1.2) ∧ g.2 ≠ .handing)
      (fun σ gs => WriteInv (σ.view k) gs) t := by
  -- the invariants of slots and references hold in every state of the run
  have hboth := Run.strengthen (P := fun s : System =>
      SlotInv (s.shared.view k) (s.ghosts (slotDiscipline k)) ∧
        RefsKept k s.shared (s.ghosts (refDiscipline k)))
    (fun ms t h => ⟨(disciplined_slots k (h.mono fun _ _ hg => hg.1)).inv,
      (disciplined_refs k (h.mono fun _ _ hg => hg.2.1)).inv⟩) hrun
  refine Machine.disciplined (M := machine) (D := watchDiscipline k)
    (fun r => ((body_follows_slotDiscipline k r).prod (body_follows_refDiscipline k r)).prod
      (body_follows_readDiscipline k r)) ?_ ?_ ?_
    ⟨⟨fun g hg => (by cases hg), fun hr => (by cases hr), fun hr => (by cases hr)⟩,
      fun u hu => (by cases hu)⟩ hboth
  · intro s r σ' hinv _ haccept
    rw [(view_accept haccept k).1]
    refine ⟨fun g hg => ?_, hinv.removed, fun hrunning hnone => ?_⟩
    · rcases mem_append.mp hg with hg | hg
      · exact hinv.fits g hg
      · obtain rfl := mem_singleton.mp hg
        refine Watch.Fits.of_not_hands not_isJob_idle ?_
        rintro (h | h | h) <;> cases h
    · obtain ⟨hslot, hall⟩ := hinv.orphan hrunning hnone
      refine ⟨hslot, fun g hg => ?_⟩
      rcases mem_append.mp hg with hg | hg
      · exact hall g hg
      · obtain rfl := mem_singleton.mp hg
        exact .inl rfl
  · rintro σ gs i g hg - hinv
    refine hinv.set ?_ (fun _ _ _ _ => rfl)
      (fun g hg hc => ((hinv.fits g (mem_of_mem_eraseIdx hg)).cleared hc).1) hinv.removed
      fun hrunning hnone => ?_
    · refine Watch.Fits.of_not_hands not_isJob_idle ?_
      rintro (h | h | h) <;> cases h
    · obtain ⟨hslot, hall⟩ := hinv.orphan hrunning hnone
      exact ⟨hslot, .inl rfl, fun g hg => hall g (mem_of_mem_eraseIdx hg)⟩
  · rintro s i o r c f past a σ' hs hi ⟨hguard, hslots, hrefs⟩ hallowed hexec
    exact writeInv_call hs.inv hslots hrefs hguard hi rfl hallowed hexec

/-- The slot a thread has looked up and has not written to a drive yet. -/
def readsSlot (th : Thread Request Call.Answer) : Option (CacheKey × Slot) :=
  match th.next, th.past with
  | some _, ⟨.tier (.peek key), some (p, n)⟩ :: _ => some (key, ⟨p, n⟩)
  | some _, ⟨.extents (.reserve _), some _⟩ :: ⟨.tier (.peek key), some (p, n)⟩ :: _ =>
    some (key, ⟨p, n⟩)
  | _, _ => none

/-- A thread that has looked a slot up and has not written it yet is reading it. -/
theorem reading_of_readsSlot {th : Thread Request Call.Answer} {s : Slot}
    (h : readsSlot th = some (k, s)) : th.ghost (readDiscipline k) = .reading s := by
  obtain ⟨r, rest, past⟩ := th
  unfold readsSlot at h
  cases rest with
  | ret a => simp [Thread.next] at h
  | call c f =>
    simp only [Thread.next] at h
    split at h
    · cases h
      exact if_pos rfl
    · cases h
      exact congrArg readOn (if_pos rfl)
    · cases h

/-- **A write-through reads an allocated slot.** Along every sheltered run, from the moment a job
has looked its slot up until it has written it, the slot is that of its key, and no other key has a
slot that overlaps with it. -/
theorem reading_slot_allocated {capacity numDrives blockSize : ℕ} {extents : OrdMap UInt64 Extent}
    {disk : Bytes} {ms : List SystemMove} {t : System}
    (hrun : Run machine.step ShelteredStep
      (System.init capacity numDrives blockSize extents disk) ms t) :
    ∀ th ∈ t.threads, ∀ k s, readsSlot th = some (k, s) →
      t.shared.tier.slots.get? k = some s ∧
      ∀ k' s', k' ≠ k → t.shared.tier.slots.get? k' = some s' → s.seg.Disjoint s'.seg := by
  intro th hth k s hreads
  have hinv := (disciplined_watch k hrun).inv
  have hghost : th.ghost (watchDiscipline k)
      = (th.ghost ((slotDiscipline k).prod (refDiscipline k)), .reading s) := by
    rw [← reading_of_readsSlot hreads]
    exact ghost_prod ..
  have hslot : t.shared.tier.slots.get? k = some s :=
    (hinv.fits _ (mem_map.mpr ⟨th, hth, rfl⟩)).reads s (by rw [hghost])
  exact ⟨hslot, fun k' s' hne hs' => Tier.disjoint hne.symm hslot hs'⟩

/-- A sheltered run: a job has looked its slot up when the key is removed; the removal leaves the
slot to the job. -/
def removeWhileReading : List SystemMove :=
  ([.spawn (.populate 1 4096 1 0 0)] : List SystemMove) ++
    replicate 10 (.step 0 {} : SystemMove) ++
    ([.spawn (.writeJob ⟨1, 4096, 0⟩ 1), .step 1 {}, .step 1 {}] : List SystemMove) ++
    ([.spawn (.remove 1)] : List SystemMove) ++ replicate 8 (.step 2 {} : SystemMove)

theorem reading_slot_allocated_removed :
    ∃ t, Run machine.step ShelteredStep (System.fresh 8192 1 512) removeWhileReading t ∧
      (∃ th, t.threads[1]? = some th ∧ readsSlot th = some (1, ⟨0, 4096⟩)) ∧
      t.shared.map.get? 1 = none ∧ t.shared.tier.slots.get? 1 = some ⟨0, 4096⟩ := by
  refine exists_run_and_of_checkedExec (fun t => (t.threads[1]?.bind readsSlot,
    (t.shared.map.get? 1).isSome) == (some (1, ⟨0, 4096⟩), false)) (by decide +kernel)
    fun hrun ht => ?_
  obtain ⟨hreads, hgone⟩ := Prod.mk.inj (beq_iff_eq.mp ht)
  obtain ⟨th, hth, hslot⟩ := bind_eq_some_iff.mp hreads
  exact ⟨⟨th, hth, hslot⟩, by simpa using hgone,
    (reading_slot_allocated hrun th (mem_of_getElem? hth) 1 ⟨0, 4096⟩ hslot).1⟩

/-- The job of a fetched value has looked its slot up; the key is removed, and its slot is given to
another key. -/
def removeUnderUntracked : List SystemMove :=
  ([.spawn (.remoteFetch 1 4096 0)] : List SystemMove) ++
    replicate 5 (.step 0 {} : SystemMove) ++
    ([.spawn (.writeJob ⟨1, 4096, 0⟩ 1), .step 1 {}, .step 1 {}] : List SystemMove) ++
    ([.spawn (.remove 1)] : List SystemMove) ++ replicate 5 (.step 2 {} : SystemMove) ++
    ([.spawn (.populate 2 4096 1 0 0)] : List SystemMove) ++
    replicate 3 (.step 3 {} : SystemMove)

theorem reading_slot_freed :
    ∃ t, Run machine.step anyStep (System.fresh 8192 1 512) removeUnderUntracked t ∧
      (∃ th, t.threads[1]? = some th ∧ readsSlot th = some (1, ⟨0, 4096⟩)) ∧
      t.shared.tier.slots.get? 1 = none ∧ t.shared.tier.slots.get? 2 = some ⟨0, 4096⟩ := by
  refine exists_run_and_of_exec (fun t => (t.threads[1]?.bind readsSlot,
    t.shared.tier.slots.get? 1, t.shared.tier.slots.get? 2)
      == (some (1, ⟨0, 4096⟩), none, some ⟨0, 4096⟩)) (by decide +kernel) fun hrun ht => ?_
  obtain ⟨hreads, hrest⟩ := Prod.mk.inj (beq_iff_eq.mp ht)
  obtain ⟨th, hth, hslot⟩ := bind_eq_some_iff.mp hreads
  obtain ⟨hgone, hother⟩ := Prod.mk.inj hrest
  exact ⟨⟨th, hth, hslot⟩, hgone, hother⟩

end Certus.Dispatcher
