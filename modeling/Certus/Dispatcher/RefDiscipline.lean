import Certus.Dispatcher.OneKey

/-! # Who holds a read reference

The read references of an entry carry no owner. Which of them a procedure holds on a fixed key `k`
follows from the calls it has made: a lookup that found the key holds one until it is released; the
reference that a store leaves for its write-through is the store's until its pin is recorded in the
ledger, and the job's from the moment it takes the pin out of the ledger until it settles; a removal
that takes a pin over drops the reference of the pin.

* **`body_follows_refDiscipline`** — the procedures keep to it, and hold nothing at the end. -/

namespace Certus.Dispatcher

open MemoryTier Prog List Option Proc Keeps

/-! ## Roles -/

/-- What a procedure is doing with the references of a key, apart from lookups. -/
inductive RefRole
  /-- Nothing. -/
  | none
  /-- It has created the entry and holds the write reference. -/
  | writes
  /-- It holds the reference of a write-through pin that is not recorded yet. -/
  | stored
  /-- It removes the key and found the pin recorded; it holds the ledger. -/
  | takes
  /-- It has dropped the reference of the pin. -/
  | dropped
  /-- It has removed the entry of the pin. -/
  | cleared
  /-- It is the job of the pin. -/
  | owned
  /-- It is the job of the pin, has taken the pin out of the ledger and holds its reference. -/
  | settling
  /-- It is a job without a pin. -/
  | untracked
  deriving DecidableEq, Repr

/-- The ghost value of a procedure: the references of its lookups, its role, and whether it holds
the lock of the ledger. -/
structure Refs where
  reads : ℕ := 0
  role : RefRole := .none
  locks : Bool := false
  deriving DecidableEq, Repr

namespace Refs

variable (g : Refs)

/-- After a call of the dispatch map about the key. -/
def afterMap : (c : MapCall) → c.Answer → Refs
  | .lookup _, .ok (.blockDevice _) | .lookup _, .ok (.memoryTier _ _) =>
    { g with reads := g.reads + 1 }
  | .takeRead _, .ok () =>
    match g.role with
    | .dropped => { g with role := .takes }
    | _ => { g with reads := g.reads + 1 }
  | .releaseRead _, .ok () =>
    match g.role with
    | .takes => { g with role := .dropped }
    | .settling => { g with role := .none }
    | .untracked => g
    | _ => { g with reads := g.reads - 1 }
  | .convertToStorage _ _, .ok () =>
    match g.role with
    | .settling => { g with role := .none }
    | _ => g
  | .createMemoryTierEntry _ _ _, .ok () => { g with role := .writes }
  | .releaseWrite _, _ => { g with role := .none }
  | .downgradeReference _, .ok () => { g with role := .stored }
  | .remove _, .ok () =>
    match g.role with
    | .dropped => { g with role := .cleared }
    | _ => g
  | _, _ => g

/-- After a call of the ledger about the key. -/
def afterPins : (c : PinCall) → c.Answer → Refs
  | .pin _, _ => { g with role := .none }
  | .start _, .owned => { g with role := .owned }
  | .start _, .untracked => { g with role := .untracked }
  | .finish _, true => { g with role := .settling, locks := true }
  | .finish _, false => { g with role := .none, locks := true }
  | .takeOver _, true => { g with role := .takes, locks := true }
  | .takeOver _, false => { g with locks := true }
  | .settled _, _ | .tookOver _, _ | .gaveUp _, _ => { g with role := .none, locks := false }
  | .recordWrite _ _, _ =>
    match g.role with
    | .untracked => { g with role := .none }
    | _ => g
  | _, _ => g

/-- After a call about the key. -/
def after : (c : Call) → c.Answer → Refs
  | .map c, a => g.afterMap c a
  | .pins c, a => g.afterPins c a
  | _, _ => g

/-- After a call about another key, or about none: the ledger has one lock. -/
def elsewhere : Call → Refs
  | .pins (.finish _) | .pins (.takeOver _) => { g with locks := true }
  | .pins (.settled _) | .pins (.tookOver _) | .pins (.gaveUp _) => { g with locks := false }
  | _ => g

/-- The calls about the key that are allowed. -/
def Allows : Call → Prop
  | .map (.lookup _) => g.role = .none
  | .map (.releaseRead _) =>
    g.role = .takes ∨ g.role = .settling ∨ g.role = .untracked ∨ (g.role = .none ∧ 0 < g.reads)
  | .map (.takeRead _) => g.role = .dropped ∨ g.role = .none
  | .map (.convertToStorage _ _) => g.role = .settling ∨ g.role = .untracked
  | .map (.createMemoryTierEntry _ _ _) => g.role = .none
  | .map (.releaseWrite _) | .map (.downgradeReference _) => g.role = .writes
  | .map (.remove _) => g.role = .dropped ∨ g.role = .none
  | .map (.convertMemoryTierToBlock _) => 0 < g.reads
  | .pins (.pin _) => g.role = .stored
  | .pins (.start _) | .pins (.takeOver _) => g.role = .none
  | .pins (.finish _) => g.role = .owned
  | .pins (.settled _) => g.role = .none ∧ g.locks
  | .pins (.tookOver _) => g.role = .cleared ∧ g.locks
  | .pins (.gaveUp _) => (g.role = .takes ∨ g.role = .none) ∧ g.locks
  | _ => True

/-- The calls about other keys that are allowed: who holds the lock releases it. -/
def AllowsElsewhere : Call → Prop
  | .pins (.settled _) | .pins (.tookOver _) | .pins (.gaveUp _) =>
    g.role = .none ∧ g.locks
  | _ => True

/-- The answers about the key that may be expected: a reference that is held can be dropped, and
the pin that was dropped can be taken back. -/
def Expects : (c : Call) → c.Answer → Prop
  | .map (.releaseRead _), a => g.role = .untracked ∨ a = .ok ()
  | .map (.takeRead _), a => g.role = .dropped → a = .ok ()
  | .map (.convertToStorage _ _), a => g.role = .settling → a = .ok ()
  | .map (.downgradeReference _), a => a = .ok ()
  | _, _ => True

end Refs

/-- **The discipline of a key.** -/
def refDiscipline (k : CacheKey) : Discipline Request Call.Answer Refs where
  init _ := {}
  finished := {}
  after g c a := if c.key = some k then g.after c a else g.elsewhere c
  allowed g c := (c.key = some k → g.Allows c) ∧ (c.key ≠ some k → g.AllowsElsewhere c)
  possible g c a := c.Genuine a ∧ (c.key = some k → g.Expects c a)

namespace Proc

variable {α : Type} {k key : CacheKey} {g : Refs} {Q : α → Refs → Prop}

variable {c : Call} {p : Proc α} {n : ℕ}

theorem ref_step {f : c.Answer → Proc α} (hc : c.key = some k) (hallows : g.Allows c)
    (h : ∀ a, c.Genuine a → g.Expects c a → (f a).Follows (refDiscipline k) (g.after c a) Q) :
    (perform c >>= f).Follows (refDiscipline k) g Q := by
  refine ⟨⟨fun _ => hallows, fun hne => absurd hc hne⟩, fun a ha => ?_⟩
  have hafter : (refDiscipline k).after g c a = g.after c a := if_pos hc
  rw [hafter]
  exact h a ha.1 (ha.2 hc)

theorem ref_skip {f : c.Answer → Proc α} (hc : c.key ≠ some k) (hallows : g.AllowsElsewhere c)
    (h : ∀ a, c.Genuine a → (f a).Follows (refDiscipline k) (g.elsewhere c) Q) :
    (perform c >>= f).Follows (refDiscipline k) g Q := by
  refine ⟨⟨fun heq => absurd heq hc, fun _ => hallows⟩, fun a ha => ?_⟩
  have hafter : (refDiscipline k).after g c a = g.elsewhere c := if_neg hc
  rw [hafter]
  exact h a ha.1

/-! ## Calls that leave the references alone -/

/-- The call is about the memory tier, the extents or the devices. -/
def Silent : Call → Prop
  | .map _ | .pins _ => False
  | _ => True

/-- A procedure that makes silent calls only has the ghost value it had. -/
theorem keeps_silent {P : Refs → Prop} (hp : p.Only Silent) : Keeps (refDiscipline k) P p := by
  refine keeps_of_only (fun c hc g hg => ?_) hp
  have hafter : ∀ a, (refDiscipline k).after g c a = g := by
    intro a
    show (if c.key = some k then g.after c a else g.elsewhere c) = g
    cases c <;> first | exact hc.elim | exact ite_self g
  refine ⟨⟨fun _ => ?_, fun _ => ?_⟩, fun a _ => (hafter a).symm ▸ hg⟩
  all_goals cases c <;> first | exact hc.elim | exact trivial

/-- The call has nothing to do with references or with the lock of the ledger. -/
def Neutral : Call → Prop
  | .map c =>
    match c with
    | .remove _ | .promoteBlockToMemoryTier _ _ _ | .tryEvictToBlock _ | .entrySize _
    | .oldestKeys _ => True
    | _ => False
  | .pins _ => False
  | _ => True

theorem neutral_call (hc : Neutral c) (hg : g.role = .none) :
    (refDiscipline k).allowed g c ∧ ∀ a, (refDiscipline k).after g c a = g := by
  have hafter : ∀ a, g.after c a = g := by
    intro a
    obtain ⟨reads, role, locks⟩ := g
    obtain rfl : role = .none := hg
    rcases c with c | c | c | c | _ <;> try rfl
    · cases c <;> first | exact hc.elim | rfl | skip
      rcases a with e | ⟨⟩ <;> rfl
    · exact hc.elim
  have helsewhere : g.elsewhere c = g := by
    rcases c with c | c | c | c | _ <;> first | exact hc.elim | rfl
  refine ⟨⟨fun _ => ?_, fun _ => ?_⟩, fun a => ?_⟩
  · rcases c with c | c | c | c | _ <;> try exact trivial
    · cases c <;> first | exact hc.elim | exact .inr hg | exact trivial
    · exact hc.elim
  · rcases c with c | c | c | c | _ <;> first | exact hc.elim | exact trivial
  · show (if c.key = some k then g.after c a else g.elsewhere c) = g
    rw [hafter, helsewhere, ite_self]

/-- The procedure has no role, and its lookups hold `n` references on the key. -/
def Holds (n : ℕ) (g : Refs) : Prop := g = ⟨n, .none, false⟩

/-- The procedure ends without a role and without references. -/
abbrev Idles (k : CacheKey) : Proc α → Prop := Keeps (refDiscipline k) (Holds 0)

/-- A procedure that makes neutral calls only holds what it held. -/
theorem holds_neutral (hp : p.Only Neutral) : Keeps (refDiscipline k) (Holds n) p := by
  refine keeps_of_only (fun c hc g hg => ?_) hp
  obtain rfl := hg
  obtain ⟨hallowed, hafter⟩ := neutral_call (k := k) (g := ⟨n, .none, false⟩) hc rfl
  exact ⟨hallowed, fun a _ => hafter a⟩

theorem demote_neutral : (demote key).Only Neutral := by
  refine Only.bind (only_perform _ |>.mpr trivial) fun a => ?_
  rcases a with e | ⟨⟩
  · exact trivial
  · exact ⟨trivial, fun _ => trivial⟩

theorem clearKey_neutral : (clearKey key).Only Neutral := by
  refine ⟨trivial, fun a => ?_⟩
  rcases a with e | ⟨⟩
  · have hremove : (clearEntry key).Only Neutral := by
      refine ⟨trivial, fun a => ?_⟩
      rcases a with e | ⟨⟩
      · cases e <;> first | exact trivial | exact ⟨trivial, fun _ => trivial⟩
      · exact ⟨trivial, fun _ => trivial⟩
    cases e
    case activeReferences => exact trivial
    all_goals exact hremove
  · exact ⟨trivial, fun _ => trivial⟩

section

variable (offset : UInt64) (size : UInt32) (p : Pointer)

theorem serveInto_neutral : (serveInto key offset size p).Only Neutral := by
  refine ⟨trivial, fun read => ?_⟩
  cases read
  · exact ⟨trivial, fun _ => trivial⟩
  · refine ⟨trivial, fun served => ?_⟩
    cases served
    · exact ⟨trivial, fun _ => trivial⟩
    · refine ⟨trivial, fun a => ?_⟩
      rcases a with e | ⟨⟩
      · exact ⟨trivial, fun _ => trivial⟩
      · exact trivial

theorem promoteInto_neutral : (promoteInto key offset size p).Only Neutral := by
  refine ⟨trivial, fun read => ?_⟩
  cases read
  · exact ⟨trivial, fun _ => trivial⟩
  · refine ⟨trivial, fun a => ?_⟩
    rcases a with e | ⟨⟩
    · exact ⟨trivial, fun _ => trivial⟩
    · exact trivial

end

theorem promoteJob_neutral (job : ColdJob) (res : Except DispatcherError Unit) :
    (promoteJob job res).Only Neutral := by
  rcases res with e | ⟨⟩
  · exact ⟨trivial, fun _ => trivial⟩
  · refine ⟨trivial, fun a => ?_⟩
    rcases a with e | ⟨⟩
    · exact ⟨trivial, fun _ => trivial⟩
    · exact trivial

theorem holds_evicts (n : ℕ) : Evicts (refDiscipline k) (Holds n) where
  usage := holds_neutral met
  oldest _ := holds_neutral met
  demote _ := holds_neutral demote_neutral

/-- Reserving a slot does not concern references. -/
theorem tierInsert_holds {size : UInt32} (g : Refs) (hg : Holds n g) :
    (tierInsert key size).Follows (refDiscipline k) g (Reserved (Holds n) fun _ => Holds n) := by
  have hkeeps : Keeps (refDiscipline k) (Holds n) (tierInsert key size) :=
    holds_neutral met
  refine (hkeeps g hg).mono fun a g' hg' => ?_
  cases a <;> exact hg'

theorem tierContains_holds (n : ℕ) : Keeps (refDiscipline k) (Holds n) (tierContains key) :=
  holds_neutral met

/-! ## Lookups -/

/-- The references of the lookups of these keys. -/
def Pinned (k : CacheKey) (pins : List CacheKey) : Refs → Prop := Holds (pins.count k)

theorem holds_elsewhere (hc : c.key ≠ some k) (hlock : ∀ g : Refs, g.elsewhere c = g)
    (hallows : ∀ g : Refs, g.AllowsElsewhere c) (g : Refs) (hg : Holds n g) :
    (refDiscipline k).allowed g c ∧ ∀ a, (refDiscipline k).possible g c a →
      Holds n ((refDiscipline k).after g c a) := by
  refine ⟨⟨fun heq => absurd heq hc, fun _ => hallows g⟩, fun a _ => ?_⟩
  show Holds n (if c.key = some k then g.after c a else g.elsewhere c)
  rw [if_neg hc, hlock]
  exact hg

theorem pinned_reads : Reads (refDiscipline k) (Pinned k) where
  perm hperm hg := by
    unfold Pinned at hg ⊢
    rwa [← hperm.count_eq]
  lookup key pins g hg := by
    by_cases hk : key = k
    · subst hk
      obtain rfl := hg
      refine ref_step (f := ret) rfl rfl fun a hgen _ => ?_
      rcases a with e | res
      · exact rfl
      · cases res with
        | notExist => exact rfl
        | mismatchSize => exact absurd rfl hgen
        | blockDevice o | memoryTier p n =>
          exact congrArg (fun n => (⟨n, .none, false⟩ : Refs)) (by simp)
    · obtain ⟨hallowed, hafter⟩ := holds_elsewhere (c := .map (.lookup key))
        (fun heq => hk (some.inj heq)) (fun _ => rfl) (fun _ => trivial) g hg
      refine ⟨hallowed, fun a ha => ?_⟩
      have hcount : Pinned k (key :: pins) = Pinned k pins := by
        unfold Pinned
        rw [count_cons_of_ne hk]
      have hg' := hafter a ha
      rcases a with e | res
      · exact hg'
      · cases res
        case notExist => exact hg'
        case mismatchSize => exact ha.1 rfl
        all_goals
          rw [hcount]
          exact hg'
  release key pins g hg := by
    by_cases hk : key = k
    · subst hk
      have hg : Holds (pins.count key + 1) g := by
        have hg' : Holds ((key :: pins).count key) g := hg
        rwa [count_cons_self] at hg'
      obtain rfl := hg
      refine ref_step (f := ret) rfl (.inr (.inr (.inr ⟨rfl, Nat.succ_pos _⟩)))
        fun a _ ha => ?_
      rcases ha with hrole | rfl
      · cases hrole
      · exact rfl
    · have hg' : Holds (pins.count k) g := by
        have hg' : Holds ((key :: pins).count k) g := hg
        rwa [count_cons_of_ne hk] at hg'
      exact holds_elsewhere (c := .map (.releaseRead key)) (fun heq => hk (some.inj heq))
        (fun _ => rfl) (fun _ => trivial) g hg'
  entrySize _ _ := holds_neutral met
  copy _ _ _ := holds_neutral met
  device _ := holds_neutral met

theorem holds_serves (n : ℕ) (offset : UInt64) (size : UInt32) :
    Serves (refDiscipline k) (Holds n) key offset size where
  evicts := holds_evicts n
  contains := tierContains_holds n
  reserve := ⟨fun _ => Holds n, tierInsert_holds, fun p => holds_neutral (serveInto_neutral offset size p)⟩
  stage _ := holds_neutral met

theorem holds_promotes (n : ℕ) (cfg : BatchConfig) :
    Promotes (refDiscipline k) cfg fun _ => Holds n where
  reserve _ _ _ hg :=
    evictAndInsert_follows (holds_evicts n) (tierContains_holds n) tierInsert_holds cfg.maxAttempts hg
  free _ _ _ := holds_neutral met
  promote job res _ := holds_neutral (promoteJob_neutral job res)
  device _ := holds_neutral met
  read _ _ _ _ := holds_neutral met
  copy _ _ _ := holds_neutral met
  stage _ _ := holds_neutral met

theorem batchLookup_holds (cfg : BatchConfig) (entries : List (CacheKey × UInt32)) :
    Idles k (batchLookup cfg entries) :=
  batchLookup_keeps (I := fun pins _ => Pinned k pins) pinned_reads
    (fun pins => holds_promotes (pins.count k) cfg)
    (fun _ => holds_neutral met) entries

/-! ## Stores -/

/-- The call does not touch the lock of the ledger. -/
def LockFree : Call → Prop
  | .pins (.finish _) | .pins (.takeOver _) | .pins (.settled _) | .pins (.tookOver _)
  | .pins (.gaveUp _) => False
  | _ => True

/-- A procedure about another key that does not touch the lock holds what it held. -/
theorem About.holds (hp : About key p) (hlock : p.Only LockFree) (hne : key ≠ k) :
    Keeps (refDiscipline k) (Holds n) p := by
  have hboth : p.Only fun c => c.key ≠ some k ∧ LockFree c := by
    refine (hp.and hlock).mono fun c hc => ⟨?_, hc.2⟩
    rcases hc.1 with hc | hc <;> rw [hc]
    · exact fun heq => hne (some.inj heq)
    · exact (some_ne_none k).symm
  refine keeps_of_only (fun c hc => holds_elsewhere hc.1 (fun g => ?_) fun g => ?_) hboth
  all_goals
    rcases c with c | c | c | c | _ <;> try trivial
    cases c <;> first | exact hc.2.elim | trivial

/-- So does a procedure about another key that makes plain calls only. -/
theorem Plainly.holds (hp : Plainly key p) (hne : key ≠ k) :
    Keeps (refDiscipline k) (Holds n) p := by
  refine hp.about.holds (hp.mono fun c hc => ?_) hne
  rcases c with c | c | c | c | _ <;> try trivial
  cases c <;> first | exact hc.2.elim | trivial

theorem freeUnlessLive_holds (memPtr : Pointer) : Idles k (freeUnlessLive key memPtr) := by
  have hfree : Idles k (do
      let _ ← tierRemove key
      pure () : Proc Unit) := keeps_silent met
  intro g hg
  refine (pinned_reads.lookup key [] g hg).bind fun a g' ha => ?_
  rcases a with e | res
  · exact ha
  · cases res with
    | notExist => exact hfree g' ha
    | mismatchSize => exact ha.elim
    | blockDevice o =>
      exact (pinned_reads.release key [] g' ha).bind fun _ g'' hg'' => hfree g'' hg''
    | memoryTier p n =>
      refine (pinned_reads.release key [] g' ha).bind fun _ g'' hg'' => ?_
      split_ifs
      · exact hg''
      · exact hfree g'' hg''

/-- The commit of a store turns its write reference into that of a pin and records the pin. -/
theorem commit_holds (size : UInt32) (deviceIndex : ℕ) :
    Idles k (copyGpuToMemoryCompleted key size deviceIndex) := by
  by_cases hk : key = k
  · subst hk
    refine bind (keeps_silent met) fun slot => ?_
    rcases slot with _ | ⟨memPtr, n⟩
    · exact keeps_ret _
    · rintro g rfl
      refine ref_step rfl rfl fun a _ _ => ?_
      rcases a with e | ⟨⟩
      · have hfree : Keeps (refDiscipline key) (Holds 0) (do
            let _ ← tierRemove key
            pure (.error (.ioError e.toString)) : Proc (Except DispatcherError Unit)) :=
          keeps_silent met
        cases e
        case alreadyExists =>
          exact (freeUnlessLive_holds memPtr _ rfl).bind fun _ _ hg => hg
        all_goals exact hfree _ rfl
      · refine ref_step rfl rfl fun a _ ha => ?_
        obtain rfl : a = .ok () := ha
        exact ref_step rfl rfl fun _ _ _ => rfl
  · exact (copyGpuToMemoryCompleted_plainly key size deviceIndex).holds hk

theorem fillAndCommit_holds (size : UInt32) (deviceIndex : ℕ) :
    Idles k (fillAndCommit key size deviceIndex) := by
  have hasync : (copyGpuToMemoryAsync key size.toNat).Only Silent := by
    refine ⟨trivial, fun slot => ?_⟩
    rcases slot with _ | ⟨memPtr, n⟩
    · exact trivial
    · show (if _ then _ else _ : Proc (Except DispatcherError Unit)).Only Silent
      split_ifs
      · exact trivial
      · refine ⟨trivial, fun ok => ?_⟩
        cases ok
        · exact ⟨trivial, fun _ => trivial⟩
        · exact trivial
  refine bind (keeps_silent hasync) fun r => ?_
  rcases r with e | ⟨⟩
  · exact keeps_silent met
  · refine bind (keeps_silent met) fun ok => ?_
    cases ok
    · exact keeps_silent met
    · exact commit_holds size deviceIndex

theorem populate_holds (size : UInt32) (maxAttempts polls deviceIndex : ℕ) :
    Idles k (populate key size maxAttempts polls deviceIndex) :=
  populate_keeps (holds_evicts 0) (tierContains_holds 0) tierInsert_holds maxAttempts polls
    deviceIndex fun _ => fillAndCommit_holds size deviceIndex

/-- A fetched value is published without a pin. -/
theorem remoteFetch_holds (size : UInt32) (deviceIndex : ℕ) :
    Idles k (remoteFetch key size deviceIndex) := by
  have hsize : (keepOrFree key size).Only Neutral := by
    refine ⟨trivial, fun a => ?_⟩
    rcases a with e | n
    · exact ⟨trivial, fun _ => trivial⟩
    · show (if _ then _ else _ : Proc Unit).Only Neutral
      split_ifs
      · exact trivial
      · exact ⟨trivial, fun _ => trivial⟩
  by_cases hk : key = k
  · subst hk
    refine bind (keeps_silent met) fun r => ?_
    rcases r with e | memPtr
    · exact keeps_ret _
    · refine bind (keeps_silent met) fun ok => ?_
      cases ok
      · exact keeps_silent met
      · rintro g rfl
        refine ref_step rfl rfl fun a _ _ => ?_
        rcases a with e | ⟨⟩
        · cases e
          case alreadyExists => exact holds_neutral hsize _ rfl
          all_goals
            exact holds_neutral (p := do
              let _ ← tierRemove key
              pure ()) met _ rfl
        · refine ref_step rfl rfl fun _ _ _ => ?_
          exact keeps_silent (p := perform (.enqueue _)) (P := Holds 0) met _ rfl
  · exact (remoteFetch_plainly key size deviceIndex).holds hk

theorem pinUnpin_holds : Idles k (pinUnpin key) := by
  by_cases hk : key = k
  · subst hk
    rintro g rfl
    refine ref_step rfl (.inr rfl) fun a _ _ => ?_
    rcases a with e | ⟨⟩
    · exact rfl
    · refine ref_step rfl (.inr (.inr (.inr ⟨rfl, Nat.succ_pos _⟩))) fun a _ ha => ?_
      rcases ha with hrole | rfl
      · cases hrole
      · exact rfl
  · exact (pinUnpin_plainly key).holds hk

/-! ## Background procedures -/

theorem evictOneFromSsd_holds : Idles k (evictOneFromSsd key) := by
  refine bind (getEvictableOffset_keeps pinned_reads key []) fun r => ?_
  cases r with
  | none => exact keeps_ret _
  | some offset =>
    refine holds_neutral ⟨trivial, fun a => ?_⟩
    rcases a with e | ⟨⟩
    · exact trivial
    · exact ⟨trivial, fun _ => ⟨trivial, fun _ => trivial⟩⟩

theorem promoteOne_holds (maxAttempts : ℕ) (offset : UInt64) (size : UInt32) :
    Idles k (promoteOne maxAttempts key offset size) := by
  refine bind (evictForSpace_keeps (holds_evicts 0) size maxAttempts) fun r => ?_
  rcases r with e | ⟨⟩
  · exact keeps_ret _
  · refine bind (keeps_silent met) fun r => ?_
    rcases r with e | p
    · exact keeps_ret _
    · exact holds_neutral (promoteInto_neutral offset size p)

/-! ## Removal -/

/-- A removal holds the reference of its lookup while it flips the entry. -/
theorem convert_pinned (g : Refs) (hg : Pinned k [key] g) :
    (convertMemoryTierToBlock key).Follows (refDiscipline k) g fun _ => Pinned k [key] := by
  by_cases hk : key = k
  · subst hk
    have hg : Holds 1 g := by
      have hg' : Holds ([key].count key) g := hg
      rwa [count_singleton_self] at hg'
    obtain rfl := hg
    refine ref_step (f := ret) rfl Nat.one_pos fun a _ _ => ?_
    show Holds ([key].count key) _
    rw [count_singleton_self]
    rcases a with e | ⟨⟩ <;> rfl
  · exact holds_elsewhere (c := .map (.convertMemoryTierToBlock key))
      (fun heq => hk (some.inj heq)) (fun _ => rfl) (fun _ => trivial) g hg

theorem removeProbe_holds : Idles k (removeProbe key) := by
  intro g hg
  refine (pinned_reads.lookup key [] g hg).bind fun a g' ha => ?_
  rcases a with e | res
  · exact ha
  · cases res with
    | notExist => exact ha
    | mismatchSize => exact ha.elim
    | blockDevice o => exact pinned_reads.released key [] _ ha
    | memoryTier p n =>
      refine (convert_pinned g' ha).bind fun converted g₁ h₁ => ?_
      refine (pinned_reads.release key [] g₁ h₁).bind fun _ g₂ h₂ => ?_
      rcases converted with e | ⟨⟩
      · exact h₂
      · refine (pinned_reads.lookup key [] g₂ h₂).bind fun a g₃ h₃ => ?_
        rcases a with e | res
        · exact h₃
        · cases res with
          | notExist => exact h₃
          | mismatchSize => exact h₃.elim
          | blockDevice o | memoryTier p n => exact pinned_reads.released key [] _ h₃

/-- Taking over a pin: its reference is dropped, and taken back if the entry stays. -/
theorem removeEntry_holds : Idles k (removeEntry key) := by
  rintro g rfl
  by_cases hk : key = k
  · subst hk
    refine ref_step rfl rfl fun pinned _ _ => ?_
    cases pinned
    · refine ref_step rfl (.inr rfl) fun a _ _ => ?_
      rcases a with e | ⟨⟩
      all_goals exact ref_step rfl ⟨.inr rfl, rfl⟩ fun _ _ _ => rfl
    · refine ref_step rfl (.inl rfl) fun a _ ha => ?_
      rcases ha with hrole | rfl
      · cases hrole
      · refine ref_step rfl (.inl rfl) fun a _ _ => ?_
        rcases a with e | ⟨⟩
        · refine ref_step rfl (.inl rfl) fun a _ ha => ?_
          obtain rfl : a = .ok () := ha rfl
          exact ref_step rfl ⟨.inl rfl, rfl⟩ fun _ _ _ => rfl
        · exact ref_step rfl ⟨rfl, rfl⟩ fun _ _ _ => rfl
  · have hne : some key ≠ some k := fun heq => hk (some.inj heq)
    refine ref_skip hne trivial fun pinned _ => ?_
    cases pinned
    · refine ref_skip hne trivial fun a _ => ?_
      rcases a with e | ⟨⟩
      all_goals exact ref_skip hne ⟨rfl, rfl⟩ fun _ _ => rfl
    · refine ref_skip hne trivial fun a _ => ?_
      rcases a with e | ⟨⟩
      · exact ref_skip hne ⟨rfl, rfl⟩ fun _ _ => rfl
      · refine ref_skip hne trivial fun a _ => ?_
        rcases a with e | ⟨⟩
        · exact ref_skip hne trivial fun _ _ => ref_skip hne ⟨rfl, rfl⟩ fun _ _ => rfl
        · exact ref_skip hne ⟨rfl, rfl⟩ fun _ _ => rfl

theorem freeRemoved_silent (jobFreesSlot : Bool) (blockOffset : Option UInt64) :
    (freeRemoved key jobFreesSlot blockOffset).Only Silent := by
  cases jobFreesSlot <;> cases blockOffset
  · exact ⟨trivial, fun _ => trivial⟩
  · exact ⟨trivial, fun _ => ⟨trivial, fun _ => trivial⟩⟩
  · exact trivial
  · exact ⟨trivial, fun _ => trivial⟩

theorem remove_holds : Idles k (remove key) := by
  refine bind removeProbe_holds fun r => ?_
  rcases r with e | probe
  · exact keeps_ret _
  · have hremove : Idles k (mapRemove key) :=
      holds_neutral met
    refine bind hremove fun a => ?_
    rcases a with e | ⟨⟩
    · cases e
      case activeReferences =>
        refine bind removeEntry_holds fun r => ?_
        cases r with
        | some jobFrees => exact keeps_silent (freeRemoved_silent _ _)
        | none =>
          have hunflip : Idles k (unflip key probe.flipped) := by
            refine holds_neutral ?_
            rcases probe.flipped with _ | ⟨p, n⟩
            · exact trivial
            · exact ⟨trivial, fun _ => trivial⟩
          exact bind hunflip fun _ => keeps_ret _
      all_goals exact keeps_ret _
    · exact keeps_silent (freeRemoved_silent _ _)

theorem holds_clears : Clears (refDiscipline k) (Holds 0) where
  oldest _ := keeps_silent met
  list := keeps_silent met
  free _ := keeps_silent met
  remove _ := remove_holds

/-! ## Write jobs -/

theorem writeThrough_silent (job : WriteJob) : (writeThrough job).Only Silent := by
  refine ⟨trivial, fun slot => ?_⟩
  rcases slot with _ | ⟨memPtr, n⟩
  · exact trivial
  · refine ⟨trivial, fun reserved => ?_⟩
    cases reserved with
    | none => exact trivial
    | some loc =>
      refine ⟨trivial, fun ok => ?_⟩
      cases ok <;> exact ⟨trivial, fun _ => trivial⟩

variable (written : Option UInt64)

theorem discardWritten_silent : (discardWritten key written).Only Silent := by
  cases written
  · exact ⟨trivial, fun _ => trivial⟩
  · exact ⟨trivial, fun _ => ⟨trivial, fun _ => trivial⟩⟩

/-- A job that took its pin out of the ledger drops the reference of the pin. -/
theorem settle_settling :
    (settleWriteThrough k written).Follows (refDiscipline k) ⟨0, .settling, true⟩
      fun _ g => g = ⟨0, .none, true⟩ := by
  cases written with
  | none =>
    refine ref_step rfl (.inr (.inl rfl)) fun a _ ha => ?_
    rcases ha with hrole | rfl
    · cases hrole
    · exact rfl
  | some loc =>
    refine ref_step rfl (.inl rfl) fun a _ ha => ?_
    obtain rfl : a = .ok () := ha rfl
    exact rfl

/-- A job without a pin has no reference to drop. -/
theorem settle_untracked :
    (settleWriteThrough k written).Follows (refDiscipline k) ⟨0, .untracked, false⟩
      fun _ g => g = ⟨0, .untracked, false⟩ := by
  cases written with
  | none =>
    refine ref_step rfl (.inr (.inr (.inl rfl))) fun a _ _ => ?_
    rcases a with e | ⟨⟩ <;> exact rfl
  | some loc =>
    refine ref_step rfl (.inr rfl) fun a _ _ => ?_
    rcases a with e | ⟨⟩ <;> exact rfl

theorem settle_elsewhere (hk : key ≠ k) (g : Refs) :
    (settleWriteThrough key written).Follows (refDiscipline k) g fun _ g' => g' = g := by
  have hne : some key ≠ some k := fun heq => hk (some.inj heq)
  cases written with
  | none | some loc => exact ref_skip hne trivial fun _ _ => rfl

theorem runWriteJob_holds (job : WriteJob) : Idles k (runWriteJob job) := by
  rintro g rfl
  have hwrite : ∀ g, (writeThrough job).Follows (refDiscipline k) g fun _ g' => g' = g := fun g =>
    keeps_silent (P := fun g' => g' = g) (writeThrough_silent job) g rfl
  have hdiscard : ∀ written g,
      (discardWritten job.key written).Follows (refDiscipline k) g fun _ g' => g' = g :=
    fun written g => keeps_silent (P := fun g' => g' = g) (discardWritten_silent written) g rfl
  by_cases hk : job.key = k
  · refine ref_step (congrArg some hk) rfl fun started _ _ => ?_
    cases started with
    | stale => exact rfl
    | untracked =>
      refine (hwrite _).bind fun written g hg => ?_
      obtain rfl := hg
      have hsettle := settle_untracked (k := k) written
      rw [← hk] at hsettle ⊢
      refine hsettle.bind fun _ g hg => ?_
      obtain rfl := hg
      exact ref_step (f := ret) rfl trivial fun _ _ _ => rfl
    | owned =>
      refine (hwrite _).bind fun written g hg => ?_
      obtain rfl := hg
      refine ref_step (congrArg some hk) rfl fun owned _ _ => ?_
      cases owned
      · refine (hdiscard written _).bind fun _ g hg => ?_
        obtain rfl := hg
        exact ref_step (f := ret) (congrArg some hk) ⟨rfl, rfl⟩ fun _ _ _ => rfl
      · refine ref_step (congrArg some hk) trivial fun _ _ _ => ?_
        have hsettle := settle_settling (k := k) written
        rw [← hk] at hsettle ⊢
        refine hsettle.bind fun _ g hg => ?_
        obtain rfl := hg
        exact ref_step (f := ret) rfl ⟨rfl, rfl⟩ fun _ _ _ => rfl
  · have hne : some job.key ≠ some k := fun heq => hk (some.inj heq)
    refine ref_skip hne trivial fun started _ => ?_
    cases started with
    | stale => exact rfl
    | untracked =>
      refine (hwrite _).bind fun written g hg => ?_
      obtain rfl := hg
      refine (settle_elsewhere written hk _).bind fun _ g hg => ?_
      obtain rfl := hg
      exact ref_skip (f := ret) hne trivial fun _ _ => rfl
    | owned =>
      refine (hwrite _).bind fun written g hg => ?_
      obtain rfl := hg
      refine ref_skip hne trivial fun owned _ => ?_
      cases owned
      · refine (hdiscard written _).bind fun _ g hg => ?_
        obtain rfl := hg
        exact ref_skip (f := ret) hne ⟨rfl, rfl⟩ fun _ _ => rfl
      · refine ref_skip hne trivial fun _ _ => ?_
        refine (settle_elsewhere written hk _).bind fun _ g hg => ?_
        obtain rfl := hg
        exact ref_skip (f := ret) hne ⟨rfl, rfl⟩ fun _ _ => rfl

theorem workerRound_holds (job : WriteJob) : Idles k (workerRound job) :=
  (runWriteJob_holds job).bind fun _ => keeps_silent met

end Proc

/-! ## All procedures -/

theorem follows_forget_of_keeps {G α : Type} {D : Discipline Request Call.Answer G}
    {P : G → Prop} {p : Proc α} {g : G} (h : Keeps D P p) (hg : P g) :
    p.forget.Follows D g fun _ => P :=
  (h g hg).bind fun _ _ hg' => hg'

/-- **Every procedure of the dispatcher keeps to the discipline of every key**, and holds nothing
when it is done. -/
theorem body_follows_refDiscipline (k : CacheKey) (r : Request) :
    r.body.Follows (refDiscipline k) ((refDiscipline k).init r) fun _ => Proc.Holds 0 := by
  have hstart : Proc.Holds 0 {} := rfl
  have hdevice : Keeps (refDiscipline k) (Proc.Holds 0) device :=
    keeps_silent met
  have hevicts : Proc.Evicts (refDiscipline k) (Proc.Holds 0) := holds_evicts 0
  cases r with
  | populate key size maxAttempts polls d =>
    exact follows_forget_of_keeps (populate_holds size maxAttempts polls d) hstart
  | commit key size d => exact follows_forget_of_keeps (commit_holds size d) hstart
  | remove key => exact follows_forget_of_keeps remove_holds hstart
  | evictOneClean scan =>
    exact follows_forget_of_keeps (evictOneClean_keeps hevicts scan) hstart
  | memoryTierEvictor scan => exact memoryTierEvictor_keeps hevicts hdevice scan _ hstart
  | ssdEvictor batch =>
    exact ssdEvictor_keeps (fun _ => holds_neutral met)
      (fun _ => evictOneFromSsd_holds) hdevice batch _ hstart
  | clearMemoryTier rounds =>
    exact follows_forget_of_keeps (clearMemoryTier_keeps hevicts.oldest
      (fun _ => holds_neutral clearKey_neutral) rounds) hstart
  | clearAll rounds =>
    exact follows_forget_of_keeps (clearAll_keeps holds_clears 0 rounds) hstart
  | promote keys maxAttempts =>
    exact promoteToMemoryTier_keeps maxAttempts (fun key => coldKey_keeps pinned_reads key [])
      (fun _ => promoteOne_holds maxAttempts) keys _ hstart
  | lookup key size maxAttempts rounds =>
    exact follows_forget_of_keeps (lookupAsync_keeps pinned_reads key [] size
      maxAttempts rounds fun offset => holds_serves _ offset size) hstart
  | batchLookup cfg entries =>
    exact follows_forget_of_keeps (batchLookup_holds cfg entries) hstart
  | check key => exact follows_forget_of_keeps (check_keeps pinned_reads key []) hstart
  | pin key => exact pinUnpin_holds _ hstart
  | remoteFetch key size d => exact remoteFetch_holds size d _ hstart
  | writeJob job birth => exact workerRound_holds job _ hstart

end Certus.Dispatcher
