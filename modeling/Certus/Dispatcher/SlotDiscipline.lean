import Certus.Dispatcher.OneKey

/-! # Who may free a slot

Slots are freed by key: a procedure that frees the slot of a key may hit one that was reserved
since. What entitles a procedure to free the slot of a fixed key `k`, or to put it into an entry, is
its **stake** in the slot, which follows from the calls it has made. Every procedure of the
dispatcher frees and publishes slots only when its stake allows it; that is what is shown here.

* **`Stake`, `Stake.after`** — the stake and how each call changes it.
* **`body_follows_slotDiscipline`** — the procedures keep to it. -/

namespace Certus.Dispatcher

open MemoryTier Prog List Option Proc

/-! ## Stakes -/

/-- What a procedure has to do with the slot of a key. -/
inductive Stake
  /-- Nothing. -/
  | none
  /-- It has reserved the slot. -/
  | reserved (slot : Slot)
  /-- It knows the slot: a commit that asked for it, or a removal that found the entry on it. -/
  | seen (slot : Slot)
  /-- It has flipped the entry away from the slot, and may flip it back. -/
  | flipped (slot : Slot)
  /-- It has taken the entry away and is to free the slot. -/
  | owes
  /-- It may free the slot by its next call, though there should be nothing to free. -/
  | freed
  deriving DecidableEq, Repr

namespace Stake

/-- What is left of a stake after a call that has nothing to do with it. -/
def expire : Stake → Stake
  | freed => none
  | g => g

/-- The slot a procedure relies on. -/
def slot? : Stake → Option Slot
  | reserved s | seen s | flipped s => some s
  | _ => Option.none

section

variable (g : Stake)

/-- After a lookup by a procedure that removes: it remembers the slot it finds the entry on. -/
def afterProbe (a : Except DispatchMapError LookupResult) : Stake :=
  match g, a with
  | flipped s, .ok (.blockDevice _) => flipped s
  | flipped _, _ => none
  | _, .ok (.memoryTier p n) => seen ⟨p, n⟩
  | _, _ => none

/-- After a lookup by any other procedure: a store that could not publish its slot learns whether to
free it. -/
def afterLookup (a : Except DispatchMapError LookupResult) : Stake :=
  match g, a with
  | reserved s, .ok (.memoryTier p _) | seen s, .ok (.memoryTier p _) =>
    if p = s.offset then none else owes
  | reserved _, .ok _ | seen _, .ok _ => owes
  | reserved _, .error _ | seen _, .error _ => none
  | g, _ => g.expire

/-- After a call of the dispatch map about the key. -/
def afterMap (removes : Bool) (g : Stake) : (c : MapCall) → c.Answer → Stake
  | .lookup _, a => if removes then g.afterProbe a else g.afterLookup a
  | .tryEvictToBlock _, .ok () => owes
  | .remove _, .ok () => owes
  | .remove _, .error (.keyNotFound _) =>
    match g with
    | reserved s => reserved s
    | flipped s | seen s => seen s
    | _ => if removes then none else freed
  | .createMemoryTierEntry _ _ _, .ok () => none
  | .convertMemoryTierToBlock _, .ok () =>
    match g with
    | seen s => flipped s
    | _ => none
  | .convertMemoryTierToBlock _, .error _ => none
  | .promoteBlockToMemoryTier _ _ _, .ok () => none
  | .promoteBlockToMemoryTier _ _ _, .error _ =>
    match g with
    | reserved s => reserved s
    | _ => none
  | .entrySize _, .ok n =>
    -- a fetched value whose key has an entry of the same size is left where it is
    match g with
    | reserved s => if n = s.size then none else reserved s
    | g => g.expire
  | _, _ => g.expire

/-- After a call of the memory tier about the key. -/
def afterTier : (c : TierCall) → c.Answer → Stake
  | .insert _ n, .ok p => reserved ⟨p, n⟩
  | .get _, some (p, n) =>
    match g with
    | reserved s => reserved s
    | _ => seen ⟨p, n⟩
  | .remove _, _ =>
    match g with
    | reserved _ => freed
    | _ => none
  | _, _ => g.expire

/-- After a call of the ledger about the key: a removal may leave the slot to the running job. -/
def afterPins : (c : PinCall) → c.Answer → Stake
  | .tookOver _, true => none
  | .finish _, false => owes
  | _, _ => g.expire

/-- After a call about the key. -/
def after (removes : Bool) (g : Stake) : (c : Call) → c.Answer → Stake
  | .map c, a => g.afterMap removes c a
  | .tier c, a => g.afterTier c a
  | .pins c, a => g.afterPins c a
  | _, _ => g.expire

/-- After a call about another key, or about none. -/
def elsewhere (removes : Bool) (g : Stake) : Call → Stake
  | .map (.lookup _) => if removes then none else g.expire
  | _ => g.expire

/-- The calls about the key that a stake allows. -/
def Allows : Call → Prop
  | .tier (.remove _) => (∃ s, g = reserved s) ∨ g = owes ∨ g = freed
  | .map (.createMemoryTierEntry _ p _) => ∃ s, (g = reserved s ∨ g = seen s) ∧ p = s.offset
  | .map (.promoteBlockToMemoryTier _ p n) => g.slot? = some ⟨p, n⟩
  | .map (.convertMemoryTierToBlock _) => ∃ s, g = seen s
  | .pins (.tookOver _) => g = owes
  | _ => True

/-- The answers about the key that may be expected with a stake. -/
def Expects : (c : Call) → c.Answer → Prop
  | .tier (.get _), a => ∀ s, g = reserved s → a = some (s.offset, s.size)
  | .tier (.contains _), a => ∀ s, g.slot? = some s → a = true
  | .map (.lookup _), a => ∀ s p n, g.slot? = some s → a = .ok (.memoryTier p n) → p = s.offset
  | .map (.createMemoryTierEntry _ _ _), a => a = .ok () ∨ ∃ k, a = .error (.alreadyExists k)
  | .map (.remove _), a =>
    a = .ok () ∨ (∃ k, a = .error (.keyNotFound k)) ∨ ∃ k, a = .error (.activeReferences k)
  | .map (.tryEvictToBlock _), a => ∀ s, g = reserved s → a ≠ .ok ()
  | _, _ => True

end

@[simp] theorem expire_expire (g : Stake) : g.expire.expire = g.expire := by cases g <;> rfl

variable {g : Stake}

theorem expire_eq_none : g.expire = none ↔ g = none ∨ g = freed := by
  cases g <;> simp [expire]

theorem expire_eq_reserved {s : Slot} : g.expire = reserved s ↔ g = reserved s := by
  cases g <;> simp [expire]

/-- Whoever frees the slot has no stake in it any more. -/
theorem expire_after_tierRemove (removes : Bool) (g : Stake) (key : CacheKey)
    (a : Except MemoryTierError Unit) :
    (g.after removes (.tier (.remove key)) a).expire = none := by
  cases g <;> rfl

end Stake

/-! ## The discipline -/

/-- The ghost value of a procedure: whether it removes keys, and its stake in the slot. -/
structure Holding where
  removes : Bool
  stake : Stake
  deriving DecidableEq, Repr

/-- The requests that remove keys. -/
def Request.removes : Request → Bool
  | .remove _ | .clearAll _ => true
  | _ => false

/-- The ghost value after a call. -/
def Holding.after (k : CacheKey) (g : Holding) (c : Call) (a : c.Answer) : Holding :=
  { g with
    stake := if c.key = some k then g.stake.after g.removes c a
      else g.stake.elsewhere g.removes c }

/-- **The discipline of a key.** -/
def slotDiscipline (k : CacheKey) : Discipline Request Call.Answer Holding where
  init r := ⟨r.removes, .none⟩
  finished := ⟨false, .none⟩
  after := Holding.after k
  allowed g c := c.key = some k → g.stake.Allows c
  possible g c a := c.Genuine a ∧ (c.key = some k → g.stake.Expects c a)

namespace Proc

variable {α : Type} {k key : CacheKey} {r : Bool} {st : Stake} {Q : α → Holding → Prop}

variable {c : Call} {size : UInt32} {g : Holding} {s : Slot} {deviceIndex : ℕ} {p : Pointer}
  {offset : UInt64} {jobs : List ColdJob} {job : ColdJob}

theorem slot_step {f : c.Answer → Proc α} (hc : c.key = some k) (hallows : st.Allows c)
    (h : ∀ a, c.Genuine a → st.Expects c a →
      (f a).Follows (slotDiscipline k) ⟨r, st.after r c a⟩ Q) :
    (perform c >>= f).Follows (slotDiscipline k) ⟨r, st⟩ Q := by
  refine ⟨fun _ => hallows, fun a ha => ?_⟩
  have hafter : (slotDiscipline k).after ⟨r, st⟩ c a = ⟨r, st.after r c a⟩ := by
    show Holding.after k _ c a = _
    rw [Holding.after, if_pos hc]
  rw [hafter]
  exact h a ha.1 (ha.2 hc)

theorem slot_last {Q : c.Answer → Holding → Prop} (hc : c.key = some k) (hallows : st.Allows c)
    (h : ∀ a, c.Genuine a → st.Expects c a → Q a ⟨r, st.after r c a⟩) :
    (perform c).Follows (slotDiscipline k) ⟨r, st⟩ Q :=
  slot_step hc hallows h

theorem slot_skip {f : c.Answer → Proc α} (hc : c.key ≠ some k)
    (h : ∀ a, c.Genuine a → (f a).Follows (slotDiscipline k) ⟨r, st.elsewhere r c⟩ Q) :
    (perform c >>= f).Follows (slotDiscipline k) ⟨r, st⟩ Q := by
  refine ⟨fun heq => absurd heq hc, fun a ha => ?_⟩
  have hafter : (slotDiscipline k).after ⟨r, st⟩ c a = ⟨r, st.elsewhere r c⟩ := by
    show Holding.after k _ c a = _
    rw [Holding.after, if_neg hc]
  rw [hafter]
  exact h a ha.1

/-- A procedure that does not remove has this stake, possibly with an expiring right to free. -/
def Calm (st : Stake) (g : Holding) : Prop := g.removes = false ∧ g.stake.expire = st

/-- The procedure ends without a stake in the slot of the key. -/
abbrev Calmly (k : CacheKey) : Proc α → Prop := Keeps (slotDiscipline k) (Calm .none)

/-- A procedure that removes is between two keys. -/
def Between (g : Holding) : Prop :=
  g.removes ∧ (g.stake.expire = .none ∨ ∃ s, g.stake = .seen s)

section

variable (hc : c.key ≠ some k)
include hc

theorem calm_elsewhere (g : Holding) (hg : Calm st g) :
    (slotDiscipline k).allowed g c ∧ ∀ a, (slotDiscipline k).possible g c a →
      Calm st ((slotDiscipline k).after g c a) := by
  refine ⟨fun heq => absurd heq hc, fun a _ => ⟨hg.1, ?_⟩⟩
  show (Holding.after k g c a).stake.expire = st
  have hstake : g.stake.elsewhere g.removes c = g.stake.expire := by
    unfold Stake.elsewhere
    rw [hg.1]
    split <;> rfl
  rw [Holding.after, if_neg hc, hstake, Stake.expire_expire]
  exact hg.2

theorem between_elsewhere (g : Holding) (hg : Between g) :
    (slotDiscipline k).allowed g c ∧ ∀ a, (slotDiscipline k).possible g c a →
      Between ((slotDiscipline k).after g c a) := by
  refine ⟨fun heq => absurd heq hc, fun a _ => ⟨hg.1, ?_⟩⟩
  show (Holding.after k g c a).stake.expire = .none ∨ ∃ s, (Holding.after k g c a).stake = .seen s
  rw [Holding.after, if_neg hc]
  unfold Stake.elsewhere
  rw [hg.1]
  split
  · exact .inl rfl
  · rcases hg.2 with hnone | ⟨s, hs⟩
    · exact .inl (by rw [Stake.expire_expire, hnone])
    · exact .inr ⟨s, by rw [hs]; rfl⟩

/-- A call about no key, or about another one, keeps the calm. -/
theorem calm_perform :
    Keeps (slotDiscipline k) (Calm st) (perform c) := calm_elsewhere hc

end

theorem calm_quiet (hc : c.key = none) : Keeps (slotDiscipline k) (Calm st) (perform c) :=
  calm_perform (hc ▸ (some_ne_none k).symm)

/-- A call after which the stake has just expired keeps the calm. -/
theorem calm_of_expire (hallows : ∀ g : Stake, g.Allows c)
    (hafter : ∀ (g : Stake) a, c.Genuine a → g.Expects c a → g.expire = st →
      (g.after false c a).expire = st) : Keeps (slotDiscipline k) (Calm st) (perform c) := by
  by_cases hc : c.key = some k
  · rintro ⟨r, g⟩ ⟨hr, hg⟩
    obtain rfl : r = false := hr
    refine ⟨fun _ => hallows g, fun a ha => ⟨rfl, ?_⟩⟩
    show (Holding.after k _ c a).stake.expire = st
    rw [Holding.after, if_pos hc]
    exact hafter g a ha.1 (ha.2 hc) hg
  · exact calm_perform hc

/-- What a call that has nothing to do with the stake leaves of it. -/
theorem calm_expire {g : Stake} (hg : g.expire = st) : Calm st ⟨false, g.expire⟩ :=
  ⟨rfl, by rw [Stake.expire_expire, hg]⟩

/-- A procedure about one key keeps the calm if it does so for this key. -/
theorem About.calm {p : Proc α} (habout : About key p)
    (hself : key = k → ∀ g : Stake, g.expire = st →
      p.Follows (slotDiscipline k) ⟨false, g⟩ fun _ => Calm st) :
    Keeps (slotDiscipline k) (Calm st) p := by
  by_cases hk : key = k
  · rintro ⟨r, g⟩ ⟨hr, hg⟩
    obtain rfl : r = false := hr
    exact hself hk g hg
  · exact habout.keeps (fun _ hc g hg => calm_elsewhere hc g hg) hk

/-! ## Making room and reserving -/

theorem demote_calm (hst : st = .none ∨ ∃ s, st = .reserved s) :
    Keeps (slotDiscipline k) (Calm st) (demote key) := by
  refine (demote_plainly key).about.calm ?_
  rintro rfl g hg
  refine slot_step rfl trivial fun a _ ha => ?_
  rcases a with e | ⟨⟩
  · exact calm_expire hg
  · refine slot_step rfl (.inr (.inl rfl)) fun _ _ _ => ⟨rfl, ?_⟩
    rcases hst with rfl | ⟨s, rfl⟩
    · rfl
    · exact absurd rfl (ha s (Stake.expire_eq_reserved.mp hg))

theorem calm_evicts (hst : st = .none ∨ ∃ s, st = .reserved s) :
    Evicts (slotDiscipline k) (Calm st) where
  usage := calm_quiet rfl
  oldest _ := calm_quiet rfl
  demote _ := demote_calm hst

/-- After a reservation for `key`. -/
def Backed (k key : CacheKey) (slot : Slot) (g : Holding) : Prop :=
  if key = k then g = ⟨false, .reserved slot⟩ else Calm .none g

theorem tierInsert_follows (g : Holding) (hg : Calm .none g) :
    (tierInsert key size).Follows (slotDiscipline k) g
      (Reserved (Calm .none) fun p => Backed k key ⟨p, size⟩) := by
  by_cases hk : key = k
  · subst hk
    obtain ⟨r, g⟩ := g
    obtain ⟨hr, hg⟩ := hg
    obtain rfl : r = false := hr
    refine slot_last rfl trivial fun a _ _ => ?_
    rcases a with e | p
    · exact calm_expire hg
    · exact (if_pos rfl).mpr rfl
  · have hkeeps : Calmly k (tierInsert key size) :=
      calm_perform fun heq => hk (some.inj heq)
    refine (hkeeps g hg).mono fun a g' hg' => ?_
    rcases a with e | p
    · exact hg'
    · exact (if_neg hk).mpr hg'

theorem tierContains_calm : Keeps (slotDiscipline k) (Calm st) (tierContains key) :=
  calm_of_expire (fun _ => trivial) fun _ _ _ _ hg => (calm_expire hg).2

variable (maxAttempts : ℕ)

theorem evictAndInsert_backed (hg : Calm .none g) :
    (evictAndInsert key size maxAttempts).Follows (slotDiscipline k) g
      (Reserved (Calm .none) fun p => Backed k key ⟨p, size⟩) :=
  evictAndInsert_follows (calm_evicts (.inl rfl)) tierContains_calm tierInsert_follows
    maxAttempts hg

/-- While the slot of `k` is reserved, a slot can be reserved for another key only. -/
theorem evictAndInsert_reserved (hg : Calm (.reserved s) g) :
    (evictAndInsert key size maxAttempts).Follows (slotDiscipline k) g
      (Reserved (Calm (.reserved s)) fun _ g' => key ≠ k ∧ Calm (.reserved s) g') := by
  by_cases hk : key = k
  · subst hk
    obtain ⟨r, g⟩ := g
    obtain ⟨hr, hg⟩ := hg
    obtain rfl : r = false := hr
    obtain rfl := Stake.expire_eq_reserved.mp hg
    refine slot_step rfl trivial fun a _ ha => ?_
    obtain rfl : a := ha s rfl
    exact ⟨rfl, rfl⟩
  · refine evictAndInsert_follows (calm_evicts (.inr ⟨s, rfl⟩)) tierContains_calm
      (fun g hg => ?_) maxAttempts hg
    have hkeeps : Keeps (slotDiscipline k) (Calm (.reserved s)) (tierInsert key size) :=
      calm_perform fun heq => hk (some.inj heq)
    refine (hkeeps g hg).mono fun a g' hg' => ?_
    rcases a with e | p
    · exact hg'
    · exact ⟨hk, hg'⟩

/-! ## Stores -/

/-- A store that could not publish the slot it holds. -/
theorem freeUnlessLive_calm (hst : st = .reserved s ∨ st = .seen s) :
    (freeUnlessLive k s.offset).Follows (slotDiscipline k) ⟨false, st⟩ fun _ => Calm .none := by
  rcases hst with rfl | rfl
  all_goals
    refine slot_step rfl trivial fun a hgen ha => ?_
    rcases a with e | res
    · exact ⟨rfl, rfl⟩
    · cases res with
      | mismatchSize => exact absurd rfl hgen
      | notExist => exact slot_step rfl (.inr (.inl rfl)) fun _ _ _ => ⟨rfl, rfl⟩
      | blockDevice o =>
        exact slot_step rfl trivial fun _ _ _ =>
          slot_step rfl (.inr (.inl rfl)) fun _ _ _ => ⟨rfl, rfl⟩
      | memoryTier p n =>
        obtain rfl : p = s.offset := ha s p n rfl rfl
        refine slot_step rfl trivial fun _ _ _ => ?_
        rw [if_pos rfl]
        refine ⟨rfl, ?_⟩
        show (if s.offset = s.offset then Stake.none else .owes).expire.expire = .none
        rw [if_pos rfl]
        rfl

/-- A store publishes the slot it holds, or frees it if it may. -/
theorem publish_calm (hst : st = .reserved s ∨ st = .seen s) : (do
      match ← createMemoryTierEntry k s.offset size with
      | .error (.alreadyExists k') =>
        freeUnlessLive k s.offset
        pure (.error (.alreadyExists k'))
      | .error e =>
        let _ ← tierRemove k
        pure (.error (.ioError e.toString))
      | .ok () =>
        match ← downgradeReference k with
        | .error e => pure (.error (.ioError e.toString))
        | .ok () =>
          perform (.pins (.pin ⟨k, size, deviceIndex⟩))
          pure (.ok ()) : Proc (Except DispatcherError Unit)).Follows (slotDiscipline k)
      ⟨false, st⟩ fun _ => Calm .none := by
  refine slot_step rfl ⟨s, hst, rfl⟩ fun a _ ha => ?_
  rcases ha with rfl | ⟨k', rfl⟩
  · refine slot_step rfl trivial fun a _ _ => ?_
    rcases a with e | ⟨⟩
    · exact ⟨rfl, rfl⟩
    · exact slot_step rfl trivial fun _ _ _ => ⟨rfl, rfl⟩
  · have hexpire : st.expire = st := by rcases hst with rfl | rfl <;> rfl
    have hfree := freeUnlessLive_calm (k := k) hst
    rw [← hexpire] at hfree
    exact hfree.bind fun _ _ hg => hg

/-- The commit of a store keeps to the discipline, whether it reserved the slot itself or not. -/
theorem copyGpuToMemoryCompleted_calm (hst : st.expire = .none ∨ ∃ s, st = .reserved s) :
    (copyGpuToMemoryCompleted k size deviceIndex).Follows (slotDiscipline k) ⟨false, st⟩
      fun _ => Calm .none := by
  refine slot_step rfl trivial fun a _ ha => ?_
  rcases hst with hst | ⟨s, rfl⟩
  · rcases a with _ | ⟨p, n⟩
    · exact calm_expire hst
    · have hseen : st.after false (.tier (.get k)) (some (p, n)) = .seen ⟨p, n⟩ := by
        rcases Stake.expire_eq_none.mp hst with rfl | rfl <;> rfl
      rw [hseen]
      exact publish_calm (.inr rfl)
  · obtain rfl : a = some (s.offset, s.size) := ha s rfl
    exact publish_calm (.inl rfl)

theorem copyAsync_reserved :
    (copyGpuToMemoryAsync k size.toNat).Follows (slotDiscipline k) ⟨false, .reserved ⟨p, size⟩⟩
      fun r g => match r with
        | .ok () => g = ⟨false, .reserved ⟨p, size⟩⟩
        | .error _ => g = ⟨false, .freed⟩ := by
  refine slot_step rfl trivial fun a _ ha => ?_
  obtain rfl : a = some (p, size) := ha _ rfl
  dsimp only
  rw [if_neg (Nat.lt_irrefl _)]
  refine slot_skip (some_ne_none k).symm fun ok _ => ?_
  cases ok
  · exact slot_step rfl (.inl ⟨_, rfl⟩) fun _ _ _ => rfl
  · rfl

/-- The way out of every failure after a reservation: the slot is freed. -/
theorem free_calm {slot : Slot} {x : α} :
    (tierRemove k >>= fun _ => pure x).Follows (slotDiscipline k) ⟨false, .reserved slot⟩
      fun _ => Calm .none :=
  slot_step rfl (.inl ⟨_, rfl⟩) fun _ _ _ => ⟨rfl, rfl⟩

/-- A store with a reserved slot of its size. -/
theorem fillAndCommit_calm :
    (fillAndCommit k size deviceIndex).Follows (slotDiscipline k) ⟨false, .reserved ⟨p, size⟩⟩
      fun _ => Calm .none := by
  refine copyAsync_reserved.bind fun r g hg => ?_
  rcases r with e | ⟨⟩
  · obtain rfl := hg
    exact slot_step rfl (.inr (.inr rfl)) fun _ _ _ => ⟨rfl, rfl⟩
  · obtain rfl := hg
    refine slot_skip (some_ne_none k).symm fun ok _ => ?_
    cases ok
    · exact free_calm
    · exact copyGpuToMemoryCompleted_calm (.inr ⟨_, rfl⟩)

section

variable (size : UInt32)

theorem populate_calm (maxAttempts polls deviceIndex : ℕ) :
    Calmly k (populate key size maxAttempts polls deviceIndex) := by
  refine populate_keeps (calm_evicts (.inl rfl)) tierContains_calm tierInsert_follows
    maxAttempts polls deviceIndex fun p g hg => ?_
  unfold Backed at hg
  split_ifs at hg with hk
  · subst hk hg
    exact fillAndCommit_calm
  · exact (fillAndCommit_plainly key size deviceIndex).about.keeps
      (fun _ hc g hg => calm_elsewhere hc g hg) hk g hg

theorem commit_calm (deviceIndex : ℕ) :
    Calmly k (copyGpuToMemoryCompleted key size deviceIndex) := by
  refine (copyGpuToMemoryCompleted_plainly key size deviceIndex).about.calm ?_
  rintro rfl g hg
  exact copyGpuToMemoryCompleted_calm (.inl hg)

/-- A fetched value is published, left behind or freed. -/
theorem remoteFetch_calm (deviceIndex : ℕ) : Calmly k (remoteFetch key size deviceIndex) := by
  refine (remoteFetch_plainly key size deviceIndex).about.calm ?_
  rintro rfl g hg
  refine slot_step rfl trivial fun a _ _ => ?_
  rcases a with e | p
  · exact calm_expire hg
  · refine slot_skip (some_ne_none key).symm fun ok _ => ?_
    cases ok
    · exact free_calm
    · refine slot_step rfl ⟨⟨p, size⟩, .inl rfl, rfl⟩ fun a _ ha => ?_
      rcases ha with rfl | ⟨k', rfl⟩
      · exact slot_step rfl trivial fun _ _ _ =>
          slot_skip (some_ne_none key).symm fun _ _ => ⟨rfl, rfl⟩
      · refine slot_step rfl trivial fun a _ _ => ?_
        rcases a with e | n
        · exact free_calm
        · by_cases hn : n = size
          · subst hn
            dsimp only
            rw [if_pos rfl]
            refine ⟨rfl, ?_⟩
            show (if n = n then Stake.none else .reserved ⟨p, n⟩).expire = .none
            rw [if_pos rfl]
            rfl
          · dsimp only
            rw [if_neg hn]
            have hstake : Stake.after false (.reserved ⟨p, size⟩) (.map (.entrySize key)) (.ok n)
                = .reserved ⟨p, size⟩ := if_neg hn
            exact slot_step rfl (.inl ⟨_, hstake⟩) fun freed _ _ =>
              ⟨rfl, Stake.expire_after_tierRemove false _ key freed⟩

end

/-! ## Lookups and promotion -/

theorem lookup_calm (g : Holding) (hg : Calm .none g) :
    (lookup key).Follows (slotDiscipline k) g fun a g' =>
      a ≠ .ok .mismatchSize ∧ Calm .none g' := by
  by_cases hk : key = k
  · subst hk
    obtain ⟨r, g⟩ := g
    obtain ⟨hr, hg⟩ := hg
    obtain rfl : r = false := hr
    refine slot_last rfl trivial fun a hgen _ => ⟨hgen, rfl, ?_⟩
    rcases Stake.expire_eq_none.mp hg with rfl | rfl <;> rfl
  · obtain ⟨hallowed, hafter⟩ := calm_elsewhere (k := k) (c := .map (.lookup key))
      (fun heq => hk (some.inj heq)) g hg
    exact ⟨hallowed, fun a ha => ⟨ha.1, hafter a ha⟩⟩

theorem releaseRead_calm : Calmly k (releaseRead key) :=
  calm_of_expire (fun _ => trivial) fun _ _ _ _ hg => (calm_expire hg).2

theorem calm_reads : Reads (slotDiscipline k) fun _ => Calm .none where
  perm _ h := h
  lookup key _ g hg := (lookup_calm g hg).mono fun a g' ha => by
    rcases a with e | res
    · exact ha.2
    · cases res
      case mismatchSize => exact ha.1 rfl
      all_goals exact ha.2
  release _ _ := releaseRead_calm
  entrySize key _ := calm_of_expire (c := .map (.entrySize key)) (fun _ => trivial)
    fun g a _ _ hg => by
      rcases Stake.expire_eq_none.mp hg with rfl | rfl <;> cases a <;> rfl
  copy _ _ _ := calm_quiet rfl
  device _ := calm_quiet rfl

section

variable (g : Holding) (hg : Backed k key ⟨p, size⟩ g)
include hg

/-- An extent is read into the reserved slot, and the slot is published or freed. -/
theorem serveInto_calm :
    (serveInto key offset size p).Follows (slotDiscipline k) g fun _ => Calm .none := by
  unfold Backed at hg
  split_ifs at hg with hk
  · subst hk hg
    refine slot_skip (some_ne_none key).symm fun ok _ => ?_
    cases ok
    · exact free_calm
    · refine slot_skip (some_ne_none key).symm fun served _ => ?_
      cases served
      · exact free_calm
      · refine slot_step rfl rfl fun a _ _ => ?_
        rcases a with e | ⟨⟩
        · exact free_calm
        · exact ⟨rfl, rfl⟩
  · exact (serveInto_plainly key offset size p).about.keeps
      (fun _ hc g hg => calm_elsewhere hc g hg) hk g hg

theorem promoteInto_calm :
    (promoteInto key offset size p).Follows (slotDiscipline k) g fun _ => Calm .none := by
  unfold Backed at hg
  split_ifs at hg with hk
  · subst hk hg
    refine slot_skip (some_ne_none key).symm fun ok _ => ?_
    cases ok
    · exact free_calm
    · refine slot_step rfl rfl fun a _ _ => ?_
      rcases a with e | ⟨⟩
      · exact free_calm
      · exact ⟨rfl, rfl⟩
  · exact (promoteInto_plainly key offset size p).about.keeps
      (fun _ hc g hg => calm_elsewhere hc g hg) hk g hg

end

theorem calm_serves (offset : UInt64) (size : UInt32) :
    Serves (slotDiscipline k) (Calm .none) key offset size where
  evicts := calm_evicts (.inl rfl)
  contains := tierContains_calm
  reserve := ⟨fun p => Backed k key ⟨p, size⟩, tierInsert_follows, fun _ => serveInto_calm⟩
  stage _ := calm_quiet rfl

theorem promoteOne_calm (offset : UInt64) (size : UInt32) :
    Calmly k (promoteOne maxAttempts key offset size) := by
  intro g hg
  refine (evictForSpace_keeps (calm_evicts (.inl rfl)) size maxAttempts g hg).bind
    fun r g' hg' => ?_
  rcases r with e | ⟨⟩
  · exact hg'
  · refine (tierInsert_follows g' hg').bind fun r g'' hr => ?_
    rcases r with e | p
    · exact hr
    · exact promoteInto_calm g'' hr

theorem pinUnpin_calm : Calmly k (pinUnpin key) := by
  refine (calm_of_expire (c := .map (.takeRead key)) (fun _ => trivial)
    fun _ _ _ _ hg => (calm_expire hg).2).bind fun a => ?_
  rcases a with e | ⟨⟩
  · exact keeps_ret _
  · exact releaseRead_calm.bind fun _ => keeps_ret _

/-! ## Batches -/

/-- The stake in the slot while the slots of these jobs are reserved. -/
def Backs (k : CacheKey) (jobs : List ColdJob) (g : Holding) : Prop :=
  match jobs.filter fun job => job.1.key = k with
  | [] => Calm .none g
  | [job] => Calm (.reserved ⟨job.2, job.1.totalSize⟩) g
  | _ => False

theorem backs_of_nil (h : jobs.filter (fun job => decide (job.1.key = k)) = []) :
    Backs k jobs g ↔ Calm .none g := by
  rw [Backs, h]

theorem backs_of_singleton (h : jobs.filter (fun job => decide (job.1.key = k)) = [job]) :
    Backs k jobs g ↔ Calm (.reserved ⟨job.2, job.1.totalSize⟩) g := by
  rw [Backs, h]

theorem backs_cons_of_ne (hk : job.1.key ≠ k) : Backs k (job :: jobs) g ↔ Backs k jobs g := by
  unfold Backs
  rw [filter_cons_of_neg (by simpa using hk)]

theorem backs_cons_self (hk : job.1.key = k) (h : Backs k (job :: jobs) g) :
    Calm (.reserved ⟨job.2, job.1.totalSize⟩) g ∧ ∀ g', Calm .none g' → Backs k jobs g' := by
  unfold Backs at h
  rw [filter_cons_of_pos (by simpa using hk)] at h
  cases hrest : jobs.filter fun job => decide (job.1.key = k) with
  | nil =>
    rw [hrest] at h
    refine ⟨h, fun g' hg' => ?_⟩
    unfold Backs
    rw [hrest]
    exact hg'
  | cons job' rest => rw [hrest] at h; exact h.elim

/-- Calls about other keys do not touch what is reserved. -/
theorem backs_elsewhere (hc : c.key ≠ some k) (g : Holding) (hg : Backs k jobs g) :
    (slotDiscipline k).allowed g c ∧ ∀ a, (slotDiscipline k).possible g c a →
      Backs k jobs ((slotDiscipline k).after g c a) := by
  unfold Backs at hg ⊢
  split at hg
  · exact calm_elsewhere hc g hg
  · exact calm_elsewhere hc g hg
  · exact hg.elim

theorem reserve_backs (jobs : List ColdJob) (e : ColdEntry) (g : Holding) (hg : Backs k jobs g) :
    (evictAndInsert e.key e.totalSize maxAttempts).Follows (slotDiscipline k) g
      (Reserved (Backs k jobs) fun p => Backs k (jobs ++ [(e, p)])) := by
  have happend : ∀ p, (jobs ++ [(e, p)]).filter (fun job => decide (job.1.key = k))
      = jobs.filter (fun job => decide (job.1.key = k)) ++ if e.key = k then [(e, p)] else [] := by
    intro p
    split_ifs <;> simp_all
  unfold Backs at hg
  split at hg
  next hjobs =>
    refine (evictAndInsert_backed maxAttempts hg).mono fun r g' hr => ?_
    rcases r with err | p
    · exact (backs_of_nil hjobs).mpr hr
    · have hr : Backed k e.key ⟨p, e.totalSize⟩ g' := hr
      have happ := happend p
      rw [hjobs, nil_append] at happ
      unfold Backed at hr
      split_ifs at hr happ
      · exact (backs_of_singleton happ).mpr (by rw [hr]; exact ⟨rfl, rfl⟩)
      · exact (backs_of_nil happ).mpr hr
  next job hjobs =>
    refine (evictAndInsert_reserved maxAttempts hg).mono fun r g' hr => ?_
    rcases r with err | p
    · exact (backs_of_singleton hjobs).mpr hr
    · have hr : e.key ≠ k ∧ Calm _ g' := hr
      have happ := happend p
      rw [hjobs, if_neg hr.1, append_nil] at happ
      exact (backs_of_singleton happ).mpr hr.2
  next => exact hg.elim

theorem free_backs (e : ColdEntry) (p : Pointer) (rest : List ColdJob) (g : Holding)
    (hg : Backs k ((e, p) :: rest) g) :
    (tierRemove e.key).Follows (slotDiscipline k) g fun _ => Backs k rest := by
  by_cases hk : e.key = k
  · obtain ⟨hcalm, hrest⟩ := backs_cons_self hk hg
    obtain ⟨r, g⟩ := g
    obtain ⟨hr, hg⟩ := hcalm
    obtain rfl : r = false := hr
    obtain rfl := Stake.expire_eq_reserved.mp hg
    exact slot_last (congrArg some hk) (.inl ⟨_, rfl⟩) fun _ _ _ => hrest _ ⟨rfl, rfl⟩
  · exact backs_elsewhere (c := .tier (.remove e.key)) (fun heq => hk (some.inj heq)) g
      ((backs_cons_of_ne hk).mp hg)

theorem promote_backs (job : ColdJob) (res : Except DispatcherError Unit) (rest : List ColdJob)
    (g : Holding) (hg : Backs k (job :: rest) g) :
    (promoteJob job res).Follows (slotDiscipline k) g fun _ => Backs k rest := by
  by_cases hk : job.1.key = k
  · obtain ⟨hcalm, hrest⟩ := backs_cons_self hk hg
    obtain ⟨r, g⟩ := g
    obtain ⟨hr, hg⟩ := hcalm
    obtain rfl : r = false := hr
    obtain rfl := Stake.expire_eq_reserved.mp hg
    rcases res with e | ⟨⟩
    · exact slot_step (congrArg some hk) (.inl ⟨_, rfl⟩) fun _ _ _ => hrest _ ⟨rfl, rfl⟩
    · refine slot_step (congrArg some hk) rfl fun a _ _ => ?_
      rcases a with e | ⟨⟩
      · exact slot_step (congrArg some hk) (.inl ⟨_, rfl⟩) fun _ _ _ => hrest _ ⟨rfl, rfl⟩
      · exact hrest _ ⟨rfl, rfl⟩
  · exact (promoteJob_plainly job res).about.keeps (fun _ hc g hg => backs_elsewhere hc g hg) hk g
      ((backs_cons_of_ne hk).mp hg)

theorem backs_promotes (cfg : BatchConfig) : Promotes (slotDiscipline k) cfg (Backs k) where
  reserve := reserve_backs cfg.maxAttempts
  free := free_backs
  promote := promote_backs
  device _ := backs_elsewhere (some_ne_none k).symm
  read _ _ _ _ := backs_elsewhere (some_ne_none k).symm
  copy _ _ _ := backs_elsewhere (some_ne_none k).symm
  stage _ _ := backs_elsewhere (some_ne_none k).symm

theorem batchLookup_calm (cfg : BatchConfig) (entries : List (CacheKey × UInt32)) :
    Calmly k (batchLookup cfg entries) :=
  batchLookup_keeps (I := fun _ => Backs k) calm_reads (fun _ => backs_promotes cfg)
    (fun _ => calm_quiet rfl) entries

/-! ## Background procedures -/

theorem evictOneFromSsd_calm : Calmly k (evictOneFromSsd key) := by
  refine (evictOneFromSsd_plainly key).about.calm ?_
  rintro rfl g hg
  refine (getEvictableOffset_keeps calm_reads key [] _ ⟨rfl, hg⟩).bind fun r g hg => ?_
  cases r with
  | none => exact hg
  | some offset =>
    obtain ⟨r, g⟩ := g
    obtain ⟨hr, hg⟩ := hg
    obtain rfl : r = false := hr
    refine slot_step rfl trivial fun a _ ha => ?_
    rcases ha with rfl | ⟨k', rfl⟩ | ⟨k', rfl⟩
    · exact slot_step rfl (.inr (.inl rfl)) fun _ _ _ =>
        slot_skip (some_ne_none key).symm fun _ _ => ⟨rfl, rfl⟩
    · rcases Stake.expire_eq_none.mp hg with rfl | rfl <;> exact ⟨rfl, rfl⟩
    · exact calm_expire hg

/-- `clear_memory_tier` frees the slot of a key that it demoted, that it removed, or that has no
entry. -/
theorem clearKey_calm : Calmly k (clearKey key) := by
  refine (clearKey_plainly key).about.calm ?_
  rintro rfl g hg
  have hremove : ∀ st : Stake, st.expire = .none →
      (clearEntry key).Follows (slotDiscipline key) ⟨false, st⟩ fun _ => Calm .none := by
    intro st hst
    refine slot_step rfl trivial fun a _ ha => ?_
    rcases ha with rfl | ⟨k', rfl⟩ | ⟨k', rfl⟩
    · exact slot_step rfl (.inr (.inl rfl)) fun _ _ _ => ⟨rfl, rfl⟩
    · rcases Stake.expire_eq_none.mp hst with rfl | rfl <;>
        exact slot_step rfl (.inr (.inr rfl)) fun _ _ _ => ⟨rfl, rfl⟩
    · exact calm_expire hst
  refine slot_step rfl trivial fun a _ _ => ?_
  rcases a with e | ⟨⟩
  · have hexpire : g.expire.expire = .none := by rw [Stake.expire_expire, ← hg]
    cases e
    case activeReferences => exact ⟨rfl, hexpire⟩
    all_goals exact hremove _ hexpire
  · exact slot_step rfl (.inr (.inl rfl)) fun _ _ _ => ⟨rfl, rfl⟩

/-! ## Write jobs -/

theorem writeThrough_calm (job : WriteJob) : Calmly k (writeThrough job) := by
  have hpeek : Calmly k (tierPeek job.key) :=
    calm_of_expire (fun _ => trivial) fun _ _ _ _ hg => (calm_expire hg).2
  refine hpeek.bind fun r => ?_
  rcases r with _ | ⟨p, n⟩
  · exact keeps_ret _
  · refine Keeps.bind (calm_quiet rfl) fun reserved => ?_
    cases reserved with
    | none => exact keeps_ret _
    | some loc =>
      refine Keeps.bind (calm_quiet rfl) fun ok => ?_
      cases ok <;> exact Keeps.bind (calm_quiet rfl) fun _ => keeps_ret _

theorem settleWriteThrough_calm (written : Option UInt64) :
    Calmly k (settleWriteThrough key written) := by
  cases written with
  | none => exact releaseRead_calm.bind fun _ => keeps_ret _
  | some loc =>
    exact (calm_of_expire (c := .map (.convertToStorage key loc)) (fun _ => trivial)
      fun _ _ _ _ hg => (calm_expire hg).2).bind fun _ => keeps_ret _

/-- The end of a job of `k` that owned its pin when it started: it frees the slot if the entry was
removed meanwhile. -/
theorem finishJob_calm (written : Option UInt64) : Calmly k (do
      if ← (perform (.pins (.finish k)) : Proc Bool) then
        perform (.pins (.recordWrite k written.isSome))
        settleWriteThrough k written
      else discardWritten k written
      perform (.pins (.settled k)) : Proc Unit) := by
  have hsettled : Calmly k (perform (.pins (.settled k)) : Proc Unit) :=
    calm_of_expire (fun _ => trivial) fun _ _ _ _ hg => (calm_expire hg).2
  rintro ⟨r, g⟩ ⟨hr, hg⟩
  obtain rfl : r = false := hr
  have hexpire : g.expire.expire = .none := by rw [Stake.expire_expire, ← hg]
  refine slot_step rfl trivial fun owned _ _ => ?_
  cases owned
  · cases written with
    | none =>
      exact slot_step rfl (.inr (.inl rfl)) fun _ _ _ => hsettled _ ⟨rfl, rfl⟩
    | some loc =>
      exact slot_step rfl (.inr (.inl rfl)) fun _ _ _ =>
        slot_skip (some_ne_none k).symm fun _ _ => hsettled _ ⟨rfl, rfl⟩
  · refine slot_step rfl trivial fun _ _ _ => ?_
    exact ((settleWriteThrough_calm written).bind fun _ => hsettled) _
      ⟨rfl, by rw [← hexpire]; exact Stake.expire_expire _⟩

theorem workerRound_calm (job : WriteJob) : Calmly k (workerRound job) := by
  by_cases hk : job.key = k
  · have hexpired : ∀ c : PinCall, (∀ g : Stake, g.Allows (.pins c)) →
        (∀ (g : Stake) a, (g.after false (.pins c) a) = g.expire) →
        Calmly k (perform (.pins c)) :=
      fun c hallows hafter => calm_of_expire hallows fun g a _ _ hg => by
        rw [hafter, Stake.expire_expire, ← hg]
    refine Keeps.bind ?_ fun _ =>
      (calm_quiet rfl : Keeps _ _ (perform (.jobDone _)))
    refine (hexpired (.start job.key) (fun _ => trivial) fun _ _ => rfl).bind fun started => ?_
    cases started with
    | stale => exact keeps_ret _
    | untracked =>
      exact (writeThrough_calm job).bind fun written =>
        (settleWriteThrough_calm written).bind fun _ =>
          hexpired (.recordWrite job.key _) (fun _ => trivial) fun _ _ => rfl
    | owned =>
      refine (writeThrough_calm job).bind fun written => ?_
      rw [hk]
      exact finishJob_calm written
  · exact (workerRound_about job).keeps (fun _ hc g hg => calm_elsewhere hc g hg) hk

/-! ## Removal -/

/-- The stake of a removal after its probe. -/
def Probed (probe : Probe) (g : Holding) : Prop :=
  g.removes ∧ match probe.flipped with
    | some (p, n) => g.stake = .flipped ⟨p, n⟩
    | none => g.stake.expire = .none

theorem removeProbe_follows (g : Holding) (hg : Between g) :
    (removeProbe k).Follows (slotDiscipline k) g fun r g' => match r with
      | .ok probe => Probed probe g'
      | .error _ => Between g' := by
  obtain ⟨r, g⟩ := g
  obtain ⟨hr, hg⟩ := hg
  obtain rfl : r := hr
  have hprobe : ∀ a, g.afterProbe a = Stake.none.afterProbe a := by
    intro a
    rcases hg with hg | ⟨s, hg⟩
    · rcases Stake.expire_eq_none.mp hg with hg | hg
      · rw [show g = _ from hg]
      · rw [show g = _ from hg]
        rcases a with e | res
        · rfl
        · cases res <;> rfl
    · rw [show g = _ from hg]
      rcases a with e | res
      · rfl
      · cases res <;> rfl
  refine slot_step rfl trivial fun a hgen _ => ?_
  rw [show g.after true (.map (.lookup k)) a = g.afterProbe a from rfl, hprobe]
  rcases a with e | res
  · exact ⟨rfl, .inl rfl⟩
  · cases res with
    | mismatchSize => exact absurd rfl hgen
    | notExist => exact ⟨rfl, rfl⟩
    | blockDevice o => exact slot_step rfl trivial fun _ _ _ => ⟨rfl, rfl⟩
    | memoryTier p n =>
      refine slot_step rfl ⟨_, rfl⟩ fun converted _ _ => ?_
      refine slot_step rfl trivial fun _ _ _ => ?_
      rcases converted with e | ⟨⟩
      · exact ⟨rfl, rfl⟩
      · refine slot_step rfl trivial fun a hgen _ => ?_
        rcases a with e | res
        · exact ⟨rfl, rfl⟩
        · cases res with
          | mismatchSize => exact absurd rfl hgen
          | notExist => exact ⟨rfl, rfl⟩
          | blockDevice o | memoryTier q m => exact slot_step rfl trivial fun _ _ _ => ⟨rfl, rfl⟩

/-- What the failed removal of an entry leaves of a stake. -/
def Stake.Survives (g g' : Stake) : Prop :=
  (g.expire = .none ∧ g'.expire = .none) ∨ ∃ s, g = .flipped s ∧ (g' = .flipped s ∨ g' = .seen s)

/-- Removing an entry that may be pinned: the stake tells who frees the slot. -/
theorem removeEntry_follows (hst : st.expire = .none ∨ ∃ s, st = .flipped s) :
    (removeEntry k).Follows (slotDiscipline k) ⟨true, st⟩ fun r g' => g'.removes ∧
      match r with
      | some true => g'.stake = .none
      | some false => g'.stake = .owes
      | none => Stake.Survives st g'.stake := by
  have hsurvives : ∀ g : Stake, g = st.expire → Stake.Survives st g.expire := by
    rintro g rfl
    rcases hst with hst | ⟨s, rfl⟩
    · exact .inl ⟨hst, by rw [Stake.expire_expire, Stake.expire_expire, hst]⟩
    · exact .inr ⟨s, rfl, .inl rfl⟩
  -- a failed `dm.remove`, and the calls that end the critical section
  have hfailed : ∀ (g : Stake) (e : DispatchMapError), g = st.expire →
      g.Expects (.map (.remove k)) (.error e) →
      Stake.Survives st (g.after true (.map (.remove k)) (.error e)).expire := by
    rintro g e rfl he
    rcases he with he | ⟨k', he⟩ | ⟨k', he⟩
    · cases he
    · cases he
      rcases hst with hst | ⟨s, rfl⟩
      · rw [hst]
        exact .inl ⟨hst, rfl⟩
      · exact .inr ⟨s, rfl, .inr rfl⟩
    · cases he
      exact hsurvives _ (Stake.expire_expire st)
  have hexpired : ∀ g g' : Stake, Stake.Survives g g' → Stake.Survives g g'.expire := by
    rintro g g' (⟨hg, hg'⟩ | ⟨s, hg, rfl | rfl⟩)
    · exact .inl ⟨hg, by rw [Stake.expire_expire, hg']⟩
    · exact .inr ⟨s, hg, .inl rfl⟩
    · exact .inr ⟨s, hg, .inr rfl⟩
  refine slot_step rfl trivial fun pinned _ _ => ?_
  cases pinned
  · refine slot_step rfl trivial fun a _ ha => ?_
    rcases a with e | ⟨⟩
    · exact slot_step rfl trivial fun _ _ _ => ⟨rfl, hfailed _ e rfl ha⟩
    · exact slot_step rfl trivial fun _ _ _ => ⟨rfl, rfl⟩
  · refine slot_step rfl trivial fun a _ _ => ?_
    rcases a with e | ⟨⟩
    · exact slot_step rfl trivial fun _ _ _ => ⟨rfl, hsurvives _ (Stake.expire_expire st)⟩
    · refine slot_step rfl trivial fun a _ ha => ?_
      rcases a with e | ⟨⟩
      · exact slot_step rfl trivial fun _ _ _ => slot_step rfl trivial fun _ _ _ =>
          ⟨rfl, hexpired _ _ (hfailed _ e (Stake.expire_expire st) ha)⟩
      · refine slot_step rfl rfl fun jobFrees _ _ => ?_
        cases jobFrees <;> exact ⟨rfl, rfl⟩

theorem freeRemoved_between {jobFreesSlot : Bool} {blockOffset : Option UInt64}
    (hst : st = if jobFreesSlot then .none else .owes) :
    (freeRemoved k jobFreesSlot blockOffset).Follows (slotDiscipline k) ⟨true, st⟩
      fun _ => Between := by
  cases jobFreesSlot
  · obtain rfl : st = .owes := hst
    refine slot_step rfl (.inr (.inl rfl)) fun _ _ _ => ?_
    cases blockOffset with
    | none => exact ⟨rfl, .inl rfl⟩
    | some loc => exact slot_skip (some_ne_none k).symm fun _ _ => ⟨rfl, .inl rfl⟩
  · obtain rfl : st = .none := hst
    cases blockOffset with
    | none => exact ⟨rfl, .inl rfl⟩
    | some loc => exact slot_skip (some_ne_none k).symm fun _ _ => ⟨rfl, .inl rfl⟩

theorem remove_between : Keeps (slotDiscipline k) Between (remove key) := by
  by_cases hk : key = k
  · subst hk
    intro g hg
    refine (removeProbe_follows g hg).bind fun r g' hr => ?_
    rcases r with e | probe
    · exact hr
    · obtain ⟨removes, st⟩ := g'
      obtain ⟨hremoves, hstake⟩ := hr
      obtain rfl : removes := hremoves
      have hst : st.expire = .none ∨ ∃ s, st = .flipped s := by
        cases hflip : probe.flipped with
        | none => rw [hflip] at hstake; exact .inl hstake
        | some slot => rw [hflip] at hstake; exact .inr ⟨_, hstake⟩
      refine slot_step rfl trivial fun a _ ha => ?_
      rcases ha with rfl | ⟨k', rfl⟩ | ⟨k', rfl⟩
      · exact freeRemoved_between rfl
      · rcases hst with hst | ⟨s, rfl⟩
        · rcases Stake.expire_eq_none.mp hst with rfl | rfl <;> exact ⟨rfl, .inl rfl⟩
        · exact ⟨rfl, .inr ⟨s, rfl⟩⟩
      · have hst' : st.expire.expire = .none ∨ ∃ s, st.expire = .flipped s := by
          rcases hst with hst | ⟨s, rfl⟩
          · exact .inl (by rw [Stake.expire_expire, hst])
          · exact .inr ⟨s, rfl⟩
        refine (removeEntry_follows hst').bind fun r g'' hr => ?_
        obtain ⟨removes, st''⟩ := g''
        obtain ⟨hremoves, hr⟩ := hr
        obtain rfl : removes := hremoves
        cases r with
        | some jobFrees => cases jobFrees <;> exact freeRemoved_between hr
        | none =>
          cases hflip : probe.flipped with
          | none =>
            rw [hflip] at hstake
            rcases hr with ⟨-, hnone⟩ | ⟨s, hs, -⟩
            · exact ⟨rfl, .inl hnone⟩
            · rw [show st.expire = .none from hstake] at hs
              cases hs
          | some slot =>
            obtain ⟨p, n⟩ := slot
            rw [hflip] at hstake
            obtain rfl : st = .flipped ⟨p, n⟩ := hstake
            rcases hr with ⟨hs, -⟩ | ⟨s, hs, hst''⟩
            · cases hs
            · cases hs
              rcases hst'' with h | h
              all_goals
                obtain rfl := h
                refine slot_step rfl rfl fun a _ _ => ?_
                rcases a with e | ⟨⟩ <;> exact ⟨rfl, .inl rfl⟩
  · exact (remove_about key).keeps (fun _ hc g hg => between_elsewhere hc g hg) hk

theorem between_clears : Clears (slotDiscipline k) Between where
  oldest _ := between_elsewhere (some_ne_none k).symm
  list := between_elsewhere (some_ne_none k).symm
  free _ := between_elsewhere (some_ne_none k).symm
  remove _ := remove_between

end Proc

/-! ## All procedures -/

theorem follows_forget {G α : Type} {D : Discipline Request Call.Answer G} {P : G → Prop}
    {p : Proc α} {g : G} (h : Keeps D P p) (hg : P g) : p.forget.Follows D g fun _ _ => True :=
  (h g hg).bind fun _ _ _ => trivial

/-- **Every procedure of the dispatcher keeps to the discipline of every key.** -/
theorem body_follows_slotDiscipline (k : CacheKey) (r : Request) :
    r.body.Follows (slotDiscipline k) ((slotDiscipline k).init r) fun _ _ => True := by
  have hcalm : Proc.Calm .none ⟨false, .none⟩ := ⟨rfl, rfl⟩
  have hevicts : Proc.Evicts (slotDiscipline k) (Proc.Calm .none) := calm_evicts (.inl rfl)
  have hdevice : Keeps (slotDiscipline k) (Proc.Calm .none) device := calm_quiet rfl
  cases r with
  | populate key size maxAttempts polls d =>
    exact follows_forget (populate_calm size maxAttempts polls d) hcalm
  | commit key size d => exact follows_forget (commit_calm size d) hcalm
  | remove key => exact follows_forget remove_between ⟨rfl, .inl rfl⟩
  | evictOneClean scan => exact follows_forget (evictOneClean_keeps hevicts scan) hcalm
  | memoryTierEvictor scan =>
    exact (memoryTierEvictor_keeps hevicts hdevice scan _ hcalm).mono fun _ _ _ => trivial
  | ssdEvictor batch =>
    exact (ssdEvictor_keeps (fun _ => calm_quiet rfl)
      (fun _ => evictOneFromSsd_calm) hdevice batch _ hcalm).mono fun _ _ _ => trivial
  | clearMemoryTier rounds =>
    exact follows_forget (clearMemoryTier_keeps hevicts.oldest
      (fun _ => clearKey_calm) rounds) hcalm
  | clearAll rounds =>
    exact follows_forget (clearAll_keeps between_clears 0 rounds) ⟨rfl, .inl rfl⟩
  | promote keys maxAttempts =>
    exact (promoteToMemoryTier_keeps maxAttempts (fun key => coldKey_keeps calm_reads key [])
      (fun _ => promoteOne_calm maxAttempts) keys _ hcalm).mono fun _ _ _ => trivial
  | lookup key size maxAttempts rounds =>
    exact follows_forget (lookupAsync_keeps calm_reads key [] size maxAttempts rounds
      fun offset => calm_serves offset size) hcalm
  | batchLookup cfg entries => exact follows_forget (batchLookup_calm cfg entries) hcalm
  | check key => exact follows_forget (check_keeps calm_reads key []) hcalm
  | pin key => exact (pinUnpin_calm _ hcalm).mono fun _ _ _ => trivial
  | remoteFetch key size d =>
    exact (remoteFetch_calm size d _ hcalm).mono fun _ _ _ => trivial
  | writeJob job birth => exact (workerRound_calm job _ hcalm).mono fun _ _ _ => trivial

end Certus.Dispatcher
