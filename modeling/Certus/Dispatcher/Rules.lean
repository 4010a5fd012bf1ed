import Certus.Dispatcher.KeyView

/-! # Rules for the procedures of the dispatcher

Every discipline for the procedures has to be followed through the same loops. Here the loops are
done once, for an arbitrary discipline: a loop keeps a property of the ghost value if its body does.

* **`Evicts`, `evictForSpace_keeps`, `evictAndInsert_follows`** — making room, reserving a slot.
* **`clearMemoryTier_keeps`, `ssdEvictor_keeps`, `clearAll_keeps`, …** — the background procedures.
* **`classify_follows`, `promoteAll_follows`, …** — the passes of a batch. -/

namespace Certus.Dispatcher.Proc

open Prog List

variable {G : Type} {D : Discipline Request Call.Answer G} {P : G → Prop}

/-- What is asked of one call, and of all that follows any of its answers, where nothing is. -/
theorem met {α : Type} : True ∧ ∀ _ : α, True := ⟨trivial, fun _ => trivial⟩

/-! ## Making room -/

/-- What making room needs of a property: the questions it asks the memory tier keep it, and so does
demoting any key. -/
structure Evicts (D : Discipline Request Call.Answer G) (P : G → Prop) : Prop where
  usage : Keeps D P tierUsage
  oldest : ∀ n, Keeps D P (tierOldestKeys n)
  demote : ∀ key, Keeps D P (demote key)

section

variable (h : Evicts D P)
include h

/-- The loop over the candidates keeps what a demotion keeps. -/
theorem demoteFirst_keeps (cands : List CacheKey) : Keeps D P (demoteFirst cands) := by
  induction cands with
  | nil => exact keeps_ret false
  | cons cand rest ih =>
    rw [demoteFirst]
    refine (h.demote cand).bind fun done => ?_
    cases done
    · exact ih
    · exact keeps_ret true

theorem evictOneClean_keeps (scan : ℕ) : Keeps D P (evictOneClean scan) :=
  (h.oldest scan).bind (demoteFirst_keeps h)

theorem evictAttempt_keeps (scan : ℕ) : Keeps D P (evictAttempt scan) := by
  refine (evictOneClean_keeps h scan).bind fun done => ?_
  cases done
  · show Keeps D P (if scan < evictScanMax then evictOneClean evictScanMax else pure false)
    split_ifs
    · exact evictOneClean_keeps h _
    · exact keeps_ret false
  · exact keeps_ret true

theorem evictForSpaceLoop_keeps (needed : UInt32) (maxAttempts remaining : ℕ) :
    Keeps D P (evictForSpaceLoop needed maxAttempts remaining) := by
  induction remaining with
  | zero =>
    refine h.usage.bind fun u => ?_
    dsimp only
    split_ifs <;> exact keeps_ret _
  | succ remaining ih =>
    refine h.usage.bind fun u => ?_
    dsimp only
    split_ifs
    · exact keeps_ret _
    · refine (evictAttempt_keeps h _).bind fun done => ?_
      cases done
      · exact keeps_ret _
      · exact ih

theorem evictForSpace_keeps (needed : UInt32) (maxAttempts : ℕ) :
    Keeps D P (evictForSpace needed maxAttempts) :=
  evictForSpaceLoop_keeps h needed maxAttempts maxAttempts

end

/-- What reserving a slot leads to: `Q` of the slot, or `P` as before. -/
def Reserved {E : Type} (P : G → Prop) (Q : Pointer → G → Prop) : Except E Pointer → G → Prop
  | .ok p, g => Q p g
  | .error _, g => P g

variable {Q : Pointer → G → Prop} {g : G} {key : CacheKey} {size : UInt32} {cfg : BatchConfig}
  {I : List ColdJob → G → Prop}

section

variable (h : Evicts D P) (hcontains : Keeps D P (tierContains key))
  (hins : ∀ g, P g → (tierInsert key size).Follows D g (Reserved P Q))

include hins

/-- The shape of one insertion of `evict_and_insert`: `retry` is what follows a full pool. -/
theorem insert_match_follows {retry : Proc (Except DispatcherError Pointer)}
    (hretry : ∀ g, P g → retry.Follows D g (Reserved P Q)) (hg : P g) :
    (do
      match ← tierInsert key size with
      | .ok ptr => pure (.ok ptr)
      | .error .poolFull => retry
      | .error (.alreadyExists k) => pure (.error (.alreadyExists k))
      | .error e => pure (.error (.allocationFailed e.toString)) :
        Proc (Except DispatcherError Pointer)).Follows D g (Reserved P Q) := by
  refine (hins g hg).bind fun a g' ha => ?_
  rcases a with e | ptr
  · cases e
    case poolFull => exact hretry g' ha
    all_goals exact ha
  · exact ha

include h

theorem evictAndInsertLoop_follows (remaining : ℕ) (hg : P g) :
    (evictAndInsertLoop key size remaining).Follows D g (Reserved P Q) := by
  induction remaining generalizing g with
  | zero =>
    refine (evictForSpace_keeps h size 0 g hg).bind fun r g' hg' => ?_
    rcases r with e | ⟨⟩
    · exact hg'
    · refine insert_match_follows hins ?_ hg'
      exact fun _ hg => hg
  | succ remaining ih =>
    refine (evictForSpace_keeps h size (remaining + 1) g hg).bind fun r g' hg' => ?_
    rcases r with e | ⟨⟩
    · exact hg'
    · refine insert_match_follows hins (fun g'' hg'' => ?_) hg'
      split_ifs
      · exact hg''
      · refine (evictOneClean_keeps h _ g'' hg'').bind fun done g₃ hg₃ => ?_
        cases done
        · exact hg₃
        · exact ih hg₃

include hcontains

/-- Reserving a slot for a key: `P` holds of a failed attempt, and what the insertion establishes of
a successful one. -/
theorem evictAndInsert_follows (maxAttempts : ℕ) (hg : P g) :
    (evictAndInsert key size maxAttempts).Follows D g (Reserved P Q) := by
  refine (hcontains g hg).bind fun found g' hg' => ?_
  cases found
  · exact evictAndInsertLoop_follows h hins maxAttempts hg'
  · exact hg'

theorem reserveLoop_follows (maxAttempts polls : ℕ) (hg : P g) :
    (reserveLoop key size maxAttempts polls).Follows D g (Reserved P Q) := by
  induction polls generalizing g with
  | zero => exact evictAndInsert_follows h hcontains hins maxAttempts hg
  | succ polls ih =>
    refine (evictAndInsert_follows h hcontains hins maxAttempts hg).bind fun r g' hr => ?_
    rcases r with e | p
    · cases e
      case allocationFailed => exact ih hr
      all_goals exact hr
    · exact hr

theorem reserveMemory_follows (maxAttempts polls : ℕ) (hg : P g) :
    (reserveMemory key size maxAttempts polls).Follows D g (Reserved P Q) := by
  unfold reserveMemory
  split_ifs
  · exact hg
  · exact reserveLoop_follows h hcontains hins maxAttempts polls hg

/-! ## Stores -/

/-- A store keeps what filling the reserved slot restores. -/
theorem populate_keeps (maxAttempts polls deviceIndex : ℕ)
    (hfill : ∀ p g, Q p g → (fillAndCommit key size deviceIndex).Follows D g fun _ => P) :
    Keeps D P (populate key size maxAttempts polls deviceIndex) := by
  intro g hg
  unfold populate
  split_ifs
  · exact hg
  · refine (reserveMemory_follows h hcontains hins maxAttempts polls hg).bind fun r g' hr => ?_
    rcases r with e | p
    · cases e <;> exact hr
    · exact hfill p g' hr

end

/-! ## Background procedures -/

theorem demoteAll_keeps (h : Evicts D P) (hdevice : Keeps D P device) (cands : List CacheKey) :
    Keeps D P (demoteAll cands) := by
  induction cands with
  | nil => exact keeps_ret ()
  | cons key rest ih =>
    rw [demoteAll]
    refine (h.demote key).bind fun done => ?_
    cases done
    · exact ih
    · refine hdevice.bind fun more => ?_
      cases more
      · exact keeps_ret ()
      · exact ih

theorem memoryTierEvictor_keeps (h : Evicts D P) (hdevice : Keeps D P device) (scan : ℕ) :
    Keeps D P (memoryTierEvictor scan) :=
  (h.oldest scan).bind (demoteAll_keeps h hdevice)

/-- The SSD evictor keeps what the removal of one key keeps. -/
theorem evictFromSsd_keeps (hone : ∀ key, Keeps D P (evictOneFromSsd key))
    (hdevice : Keeps D P device) (cands : List CacheKey) : Keeps D P (evictFromSsd cands) := by
  induction cands with
  | nil => exact keeps_ret ()
  | cons key rest ih =>
    rw [evictFromSsd]
    refine (hone key).bind fun done => ?_
    cases done
    · exact ih
    · refine hdevice.bind fun more => ?_
      cases more
      · exact keeps_ret ()
      · exact ih

theorem ssdEvictor_keeps (holdest : ∀ n, Keeps D P (mapOldestKeys n))
    (hone : ∀ key, Keeps D P (evictOneFromSsd key)) (hdevice : Keeps D P device) (batch : ℕ) :
    Keeps D P (ssdEvictor batch) :=
  (holdest batch).bind (evictFromSsd_keeps hone hdevice)

theorem clearPass_keeps (hclear : ∀ key, Keeps D P (clearKey key)) (cands : List CacheKey) :
    Keeps D P (clearPass cands) := by
  induction cands with
  | nil => exact keeps_ret _
  | cons key rest ih =>
    exact (hclear key).bind fun done => ih.bind fun counts => keeps_ret _

section

variable (holdest : ∀ n, Keeps D P (tierOldestKeys n))
  (hclear : ∀ key, Keeps D P (clearKey key))
include holdest hclear

theorem clearLoop_keeps (count pinned rounds : ℕ) : Keeps D P (clearLoop count pinned rounds) := by
  induction rounds generalizing count pinned with
  | zero => exact keeps_ret _
  | succ rounds ih =>
    refine (holdest _).bind fun cands => ?_
    cases cands with
    | nil => exact keeps_ret _
    | cons key rest => exact (clearPass_keeps hclear (key :: rest)).bind fun counts => ih _ _

theorem clearMemoryTier_keeps (rounds : ℕ) : Keeps D P (clearMemoryTier rounds) :=
  clearLoop_keeps holdest hclear 0 0 rounds

end

theorem removeKeys_keeps (hremove : ∀ key, Keeps D P (remove key)) (keys : List CacheKey) :
    Keeps D P (removeKeys keys) := by
  induction keys with
  | nil => exact keeps_ret _
  | cons key rest ih =>
    refine (hremove key).bind fun r => ?_
    rcases r with e | ⟨⟩
    · exact ih
    · exact ih.bind fun gone => keeps_ret _

theorem freeListed_keeps (hfree : ∀ loc, Keeps D P (perform (.extents (.remove loc)) : Proc Bool))
    (gone : List CacheKey) (extents : List (CacheKey × UInt64)) :
    Keeps D P (freeListed gone extents) := by
  induction extents with
  | nil => exact keeps_ret ()
  | cons e rest ih =>
    unfold freeListed
    split_ifs
    · exact (hfree e.2).bind fun _ => ih
    · exact ih

/-- What `clear_all` needs of a property. -/
structure Clears (D : Discipline Request Call.Answer G) (P : G → Prop) : Prop where
  oldest : ∀ n, Keeps D P (tierOldestKeys n)
  list : Keeps D P (perform (.extents .list) : Proc (List (CacheKey × UInt64)))
  free : ∀ loc, Keeps D P (perform (.extents (.remove loc)) : Proc Bool)
  remove : ∀ key, Keeps D P (remove key)

theorem listing_keeps (h : Clears D P) : Keeps D P listing :=
  (h.oldest _).bind fun _ => h.list.bind fun _ => keeps_ret _

theorem clearAllRound_keeps (h : Clears D P) (removed : ℕ) : Keeps D P (clearAllRound removed) :=
  (listing_keeps h).bind fun _ => (removeKeys_keeps h.remove _).bind fun _ =>
    (freeListed_keeps h.free _ _).bind fun _ => (listing_keeps h).bind fun _ => keeps_ret _

theorem clearAll_keeps (h : Clears D P) (removed rounds : ℕ) :
    Keeps D P (clearAll removed rounds) := by
  induction rounds generalizing removed with
  | zero => exact clearAllRound_keeps h removed
  | succ rounds ih =>
    refine (clearAllRound_keeps h removed).bind fun counts => ?_
    dsimp only
    split_ifs
    · exact keeps_ret _
    · exact ih _

/-! ## References -/

/-- What lookups need: a lookup of a key that is there adds its key to the references held, in any
order, and a release takes one of them away. -/
structure Reads (D : Discipline Request Call.Answer G) (I : List CacheKey → G → Prop) : Prop where
  perm : ∀ {pins pins' g}, pins.Perm pins' → I pins g → I pins' g
  lookup : ∀ key pins g, I pins g → (lookup key).Follows D g fun a g' =>
    match a with
    | .ok .notExist => I pins g'
    | .ok .mismatchSize => False
    | .ok _ => I (key :: pins) g'
    | .error _ => I pins g'
  release : ∀ key pins g, I (key :: pins) g → (releaseRead key).Follows D g fun _ => I pins
  entrySize : ∀ key pins, Keeps D (I pins) (entrySize key)
  copy : ∀ p n pins, Keeps D (I pins) (copyOut p n)
  device : ∀ pins, Keeps D (I pins) device

section Reads

variable {I : List CacheKey → G → Prop} (h : Reads D I) (key : CacheKey) (pins : List CacheKey)
include h

theorem Reads.released {α : Type} (a : α) {g : G} (hg : I (key :: pins) g) : (do
      let _ ← releaseRead key
      pure a : Proc α).Follows D g fun _ => I pins :=
  (h.release key pins g hg).bind fun _ _ hg' => hg'

theorem getEvictableOffset_keeps : Keeps D (I pins) (getEvictableOffset key) := by
  intro g hg
  refine (h.lookup key pins g hg).bind fun a g' ha => ?_
  rcases a with e | r
  · exact ha
  · cases r
    case blockDevice => exact h.released key pins _ ha
    case memoryTier => exact h.released key pins _ ha
    case notExist => exact ha
    case mismatchSize => exact ha.elim

end Reads

/-! ## Lookups and promotion -/

theorem serveConcurrentlyPromoted_keeps (hround : Keeps D P (serveRound key)) (rounds : ℕ) :
    Keeps D P (serveConcurrentlyPromoted key rounds) := by
  induction rounds with
  | zero => exact keeps_ret _
  | succ rounds ih =>
    rw [serveConcurrentlyPromoted]
    refine hround.bind fun r => ?_
    cases r with
    | none => exact ih
    | some r => exact keeps_ret r

/-- A lookup that is tried again ends as a lookup does. -/
theorem lookupRetrying_follows {Q : LookupResult → G → Prop} {key : CacheKey}
    (hlookup : ∀ g, P g → (lookup key).Follows D g fun a g' =>
      match a with
      | .ok r => Q r g'
      | .error _ => P g') (retries : ℕ) {g : G} (hg : P g) :
    (lookupRetrying key retries).Follows D g fun a g' =>
      match a with
      | .ok r => Q r g'
      | .error _ => P g' := by
  induction retries generalizing g with
  | zero => exact hlookup g hg
  | succ retries ih =>
    refine (hlookup g hg).bind fun a g' ha => ?_
    cases a with
    | error e => exact ih ha
    | ok r => exact ha

theorem coldKeys_keeps (hcold : ∀ key, Keeps D P (coldKey key)) (keys : List CacheKey) :
    Keeps D P (coldKeys keys) := by
  induction keys with
  | nil => exact keeps_ret _
  | cons key rest ih =>
    rw [coldKeys]
    refine (hcold key).bind fun r => ?_
    cases r with
    | none => exact ih
    | some cold => exact ih.bind fun others => keeps_ret _

variable (maxAttempts : ℕ)

theorem promoteCold_keeps
    (hone : ∀ key offset size, Keeps D P (promoteOne maxAttempts key offset size))
    (cold : List (CacheKey × UInt64 × UInt32)) : Keeps D P (promoteCold maxAttempts cold) := by
  induction cold with
  | nil => exact keeps_ret ()
  | cons c rest ih =>
    obtain ⟨key, offset, size⟩ := c
    rw [promoteCold]
    exact (hone key offset size).bind fun _ => ih

theorem promoteToMemoryTier_keeps (hcold : ∀ key, Keeps D P (coldKey key))
    (hone : ∀ key offset size, Keeps D P (promoteOne maxAttempts key offset size))
    (keys : List CacheKey) : Keeps D P (promoteToMemoryTier keys maxAttempts) :=
  (coldKeys_keeps hcold keys).bind (promoteCold_keeps maxAttempts hone)

/-- What a promotion of a single key needs beyond reading: room can be made while the key is
referenced, its slot can be reserved, and the reserved slot can be filled. -/
structure Serves (D : Discipline Request Call.Answer G) (P : G → Prop) (key : CacheKey)
    (offset : UInt64) (size : UInt32) : Prop where
  evicts : Evicts D P
  contains : Keeps D P (tierContains key)
  reserve : ∃ Q : Pointer → G → Prop,
    (∀ g, P g → (tierInsert key size).Follows D g (Reserved P Q)) ∧
    ∀ p g, Q p g → (serveInto key offset size p).Follows D g fun _ => P
  stage : ∀ n, Keeps D P (stageOut offset n)

/-- A promotion keeps `P`, whatever becomes of its slot. -/
theorem promoteAndServe_keeps {offset : UInt64} (h : Serves D P key offset size)
    (hdevice : Keeps D P device) (maxAttempts : ℕ) :
    Keeps D P (promoteAndServe key offset size maxAttempts) := by
  intro g hg
  obtain ⟨Q, hins, hserve⟩ := h.reserve
  refine (evictAndInsert_follows h.evicts h.contains hins maxAttempts hg).bind fun r g' hr => ?_
  rcases r with e | p
  · cases e
    case allocationFailed =>
      refine (hdevice g' hr).bind fun staging g'' hg'' => ?_
      cases staging
      · exact hg''
      · refine (h.stage _ g'' hg'').bind fun r g₃ h₃ => ?_
        cases r <;> exact h₃
    all_goals exact hr
  · exact hserve p g' hr

section Reads

variable {I : List CacheKey → G → Prop} (h : Reads D I) (key : CacheKey) (pins : List CacheKey)
include h

theorem serveRound_keeps : Keeps D (I pins) (serveRound key) := by
  intro g hg
  refine (h.lookup key pins g hg).bind fun a g' ha => ?_
  rcases a with e | r
  · exact ha
  · cases r
    case memoryTier p n =>
      exact (h.copy p n.toNat _ g' ha).bind fun _ g'' hg'' => h.released key pins _ hg''
    case blockDevice => exact h.released key pins _ ha
    case notExist => exact ha
    case mismatchSize => exact ha.elim

theorem coldKey_keeps : Keeps D (I pins) (coldKey key) := by
  intro g hg
  refine (h.lookup key pins g hg).bind fun a g' ha => ?_
  rcases a with e | r
  · exact ha
  · cases r
    case blockDevice =>
      refine (h.release key pins g' ha).bind fun _ g'' hg'' => ?_
      refine (h.entrySize key pins g'' hg'').bind fun r g₃ h₃ => ?_
      cases r <;> exact h₃
    case memoryTier => exact h.released key pins _ ha
    case notExist => exact ha
    case mismatchSize => exact ha.elim

/-- A lookup that is tried again takes a reference as a lookup does. -/
theorem Reads.lookupRetrying (retries : ℕ) {g : G} (hg : I pins g) :
    (lookupRetrying key retries).Follows D g fun a g' =>
      match a with
      | .ok .notExist => I pins g'
      | .ok .mismatchSize => False
      | .ok _ => I (key :: pins) g'
      | .error _ => I pins g' := by
  have hrule := @lookupRetrying_follows G D (I pins) (fun r g' =>
    match r with
    | .notExist => I pins g'
    | .mismatchSize => False
    | _ => I (key :: pins) g') key (fun g hg => (h.lookup key pins g hg).mono fun a g' ha => by
      rcases a with e | r
      · exact ha
      · cases r <;> exact ha) retries g hg
  refine hrule.mono fun a g' ha => ?_
  rcases a with e | r
  · exact ha
  · cases r <;> exact ha

theorem check_keeps : Keeps D (I pins) (check key) := by
  intro g hg
  refine (h.lookupRetrying key pins lookupRetries hg).bind fun a g' ha => ?_
  rcases a with e | r
  · cases e <;> exact ha
  · cases r
    case notExist => exact ha
    case mismatchSize => exact ha.elim
    all_goals exact h.released key pins _ ha

/-- A lookup gives back the reference that it takes. -/
theorem lookupAsync_keeps (size : UInt32) (maxAttempts rounds : ℕ)
    (hserve : ∀ offset, Serves D (I (key :: pins)) key offset size) :
    Keeps D (I pins) (lookupAsync key size maxAttempts rounds) := by
  intro g hg
  refine (h.lookup key pins g hg).bind fun a g' ha => ?_
  rcases a with e | r
  · exact ha
  · cases r
    case notExist => exact ha
    case mismatchSize => exact ha.elim
    case memoryTier p n =>
      exact (h.copy p n.toNat _ g' ha).bind fun _ g'' hg'' => h.released key pins _ hg''
    case blockDevice offset =>
      refine (promoteAndServe_keeps (hserve offset) (h.device _) maxAttempts g' ha).bind
        fun r g'' hg'' => ?_
      rcases r with e | ⟨⟩
      · cases e
        case alreadyExists =>
          exact (serveConcurrentlyPromoted_keeps (serveRound_keeps h key _) rounds g'' hg'').bind
            fun r g₃ h₃ => h.released key pins _ h₃
        all_goals exact h.released key pins _ hg''
      · exact h.released key pins _ hg''

end Reads

/-! ## Batches -/

theorem classify_follows {I : Classified → G → Prop} (hone : ∀ i key size c g, I c g →
      (classifyOne cfg i key size c).Follows D g fun c' g' => I c' g')
    (entries : List (CacheKey × UInt32)) (i : ℕ) (c : Classified) (hg : I c g) :
    (classify cfg i entries c).Follows D g fun c' g' => I c' g' := by
  induction entries generalizing i c g with
  | nil => exact hg
  | cons e rest ih =>
    exact (hone i e.1 e.2 c g hg).bind fun c' g' hg' => ih (i + 1) c' hg'

section

variable (hone : ∀ (jobs : List ColdJob) (e : ColdEntry) g, I jobs g →
    (evictAndInsert e.key e.totalSize cfg.maxAttempts).Follows D g
      (Reserved (I jobs) fun p => I (jobs ++ [(e, p)])))

include hone

/-- The reservation pass: `I` relates the slots reserved so far and the ghost value. -/
theorem prepDrive_follows (before : List ColdJob) (entries : List ColdEntry) (p : Prepared) (hg : I (before ++ p.jobs) g) :
    (prepDrive cfg entries p).Follows D g fun p' g' => I (before ++ p'.jobs) g' := by
  induction entries generalizing p g with
  | nil => exact hg
  | cons e rest ih =>
    refine (hone _ e g hg).bind fun r g' hr => ?_
    rcases r with err | memPtr
    · cases err
      case allocationFailed =>
        split_ifs <;> exact ih _ hr
      all_goals exact ih _ hr
    · refine ih _ ?_
      rw [← append_assoc]
      exact hr

theorem prepDrives_follows (drives : List (List ColdEntry)) (before : List ColdJob) (hg : I before g) :
    (prepDrives cfg drives).Follows D g fun r g' => I (before ++ r.1.flatten) g' := by
  induction drives generalizing before g with
  | nil =>
    show I (before ++ []) g
    rwa [append_nil]
  | cons entries rest ih =>
    have hstart : I (before ++ ({} : Prepared).jobs) g := by
      rw [show ({} : Prepared).jobs = [] from rfl, append_nil]
      exact hg
    refine (prepDrive_follows hone before entries {} hstart).bind fun p g' hp => ?_
    refine (ih (before ++ p.jobs) hp).bind fun r g'' hr => ?_
    rw [append_assoc] at hr
    show I (before ++ (if p.jobs = [] then r.1 else p.jobs :: r.1).flatten) g''
    split_ifs with hjobs
    · rw [hjobs, nil_append] at hr
      exact hr
    · rw [flatten_cons]
      exact hr

end

variable (hfree : ∀ (e : ColdEntry) p rest g, I ((e, p) :: rest) g →
  (tierRemove e.key).Follows D g fun _ => I rest)

include hfree in
theorem freeSlots_follows (jobs : List ColdJob) (hg : I jobs g) :
    (freeSlots jobs).Follows D g fun _ => I [] := by
  induction jobs generalizing g with
  | nil => exact hg
  | cons job rest ih => exact (hfree job.1 job.2 rest g hg).bind fun _ g' hg' => ih hg'

include hfree in
/-- Checking out channels: the slots are still reserved, or all are given back. -/
theorem checkoutChannels_follows (sets : List (List ColdJob))
    (hdevice : Keeps D (I sets.flatten) device) (todo : List (List ColdJob)) (b : Batch)
    (hg : I sets.flatten g) :
    (checkoutChannels sets todo b).Follows D g fun r g' =>
      if r.1 then I sets.flatten g' else I [] g' := by
  induction todo generalizing g with
  | nil => exact hg
  | cons jobs rest ih =>
    refine (hdevice g hg).bind fun ok g' hg' => ?_
    cases ok
    · refine (freeSlots_follows hfree sets.flatten hg').bind fun _ g'' hg'' => ?_
      exact hg''
    · exact ih hg'

theorem serveMemoryTier_keeps (hcopy : ∀ p n, Keeps D P (copyOut p n)) (pointer : Pointer)
    (size : UInt32) : Keeps D P (serveMemoryTier pointer size) := by
  refine (hcopy pointer size.toNat).bind fun r => ?_
  cases r <;> exact keeps_ret _

/-- Reading and copying keeps what reads and copies keep; the jobs come back in order. -/
theorem scatterGather_follows (hread : ∀ p loc n, Keeps D P (readExtent p loc n))
    (hcopy : ∀ p n, Keeps D P (copyOut p n)) (jobs : List ColdJob) (hg : P g) :
    (scatterGather jobs).Follows D g fun r g' => r.map Prod.fst = jobs ∧ P g' := by
  induction jobs generalizing g with
  | nil => exact ⟨rfl, hg⟩
  | cons job rest ih =>
    refine (hread job.2 job.1.offset _ g hg).bind fun read g' hg' => ?_
    have htail : ∀ (res : Except DispatcherError Unit) g, P g →
        (do
          let others ← scatterGather rest
          pure ((job, res) :: others) : Proc _).Follows D g
            fun r g' => r.map Prod.fst = job :: rest ∧ P g' := fun res g hg =>
      (ih hg).bind fun others g' h => ⟨by rw [map_cons, h.1], h.2⟩
    cases read
    · exact htail _ g' hg'
    · exact (serveMemoryTier_keeps hcopy _ _ g' hg').bind fun res g'' hg'' => htail res g'' hg''

theorem promoteAll_follows (hone : ∀ job res rest g, I (job :: rest) g →
      (promoteJob job res).Follows D g fun _ => I rest)
    (rs : List (ColdJob × Except DispatcherError Unit)) (b : Batch) (hg : I (rs.map Prod.fst) g) :
    (promoteAll rs b).Follows D g fun _ => I [] := by
  induction rs generalizing b g with
  | nil => exact hg
  | cons r rest ih =>
    obtain ⟨job, res⟩ := r
    rw [promoteAll]
    exact (hone job res _ g hg).bind fun r g' hg' => ih _ hg'

theorem serveStaged_keeps (hstage : ∀ loc n, Keeps D P (stageOut loc n)) (staged : List ColdEntry)
    (b : Batch) : Keeps D P (serveStaged staged b) := by
  induction staged generalizing b with
  | nil => exact keeps_ret _
  | cons e rest ih =>
    refine (hstage _ _).bind fun r => ?_
    cases r <;> exact ih _

/-- What the cold pass needs of a relation between the reserved slots and the ghost value. -/
structure Promotes (D : Discipline Request Call.Answer G) (cfg : BatchConfig)
    (I : List ColdJob → G → Prop) : Prop where
  reserve : ∀ (jobs : List ColdJob) (e : ColdEntry) g, I jobs g →
    (evictAndInsert e.key e.totalSize cfg.maxAttempts).Follows D g
      (Reserved (I jobs) fun p => I (jobs ++ [(e, p)]))
  free : ∀ (e : ColdEntry) p rest g, I ((e, p) :: rest) g →
    (tierRemove e.key).Follows D g fun _ => I rest
  promote : ∀ job res rest g, I (job :: rest) g → (promoteJob job res).Follows D g fun _ => I rest
  device : ∀ jobs, Keeps D (I jobs) device
  read : ∀ jobs p loc n, Keeps D (I jobs) (readExtent p loc n)
  copy : ∀ jobs p n, Keeps D (I jobs) (copyOut p n)
  stage : ∀ loc n, Keeps D (I []) (stageOut loc n)

section

variable (h : Promotes D cfg I) (sets : List (List ColdJob)) (b : Batch)
include h

/-- The part of `servePrepared` after the streams. -/
theorem serveStreams_follows (streams : Bool) (hg : I sets.flatten g) :
    (if !streams then do
        freeSlots sets.flatten
        pure (b.settleAll (sets.flatten.map fun j => j.1.idx)
          (.error (.ioError "create_stream failed for scatter-gather")))
      else do
        let (ready, b) ← checkoutChannels sets sets b
        if ready then promoteAll (← scatterGather sets.flatten) b else pure b :
      Proc Batch).Follows D g fun _ => I [] := by
  cases streams
  · exact (freeSlots_follows h.free _ hg).bind fun _ g' hg' => hg'
  · refine (checkoutChannels_follows h.free sets (h.device _) sets b hg).bind fun r g' hr => ?_
    obtain ⟨ready, b'⟩ := r
    cases ready
    · exact hr
    · refine (scatterGather_follows (h.read _) (h.copy _) sets.flatten hr).bind fun rs g'' hrs => ?_
      exact promoteAll_follows h.promote rs b' (hrs.1.symm ▸ hrs.2)

theorem servePrepared_follows (hg : I sets.flatten g) :
    (servePrepared cfg sets b).Follows D g fun _ => I [] := by
  unfold servePrepared
  split_ifs with hsets
  · rw [hsets] at hg
    exact hg
  · exact serveStreams_follows h sets b true hg
  · exact (h.device _ g hg).bind fun streams g' hg' => serveStreams_follows h sets b streams hg'

end

/-- No slot is left reserved by the cold pass. -/
theorem coldPass_follows (h : Promotes D cfg I) (cold : List ColdEntry) (b : Batch) (hg : I [] g) :
    (coldPass cfg cold b).Follows D g fun _ => I [] := by
  unfold coldPass
  split_ifs
  · exact hg
  · refine (prepDrives_follows h.reserve _ [] hg).bind fun r g' hr => ?_
    refine (servePrepared_follows h r.1 _ hr).bind fun b' g'' hg'' => ?_
    exact serveStaged_keeps h.stage _ b' g'' hg''

theorem syncCopies_keeps (hdevice : Keeps D P device) (warmStream : Bool) (inflight : List ℕ)
    (msg : String) (b : Batch) : Keeps D P (syncCopies warmStream inflight msg b) := by
  unfold syncCopies
  split_ifs
  · refine hdevice.bind fun ok => ?_
    cases ok <;> exact keeps_ret _
  · exact keeps_ret _

/-- The references are given back one by one. -/
theorem releasePins_follows {I : List CacheKey → G → Prop}
    (hone : ∀ key rest g, I (key :: rest) g → (releaseRead key).Follows D g fun _ => I rest)
    (pins : List CacheKey) (hg : I pins g) : (releasePins pins).Follows D g fun _ => I [] := by
  induction pins generalizing g with
  | nil => exact hg
  | cons key rest ih => exact (hone key rest g hg).bind fun _ g' hg' => ih hg'

section

variable {I : List CacheKey → G → Prop}
  (hone : ∀ pos key b pins g, I pins g →
    (deliverOne pos key b).Follows D g fun r => I (if r.2.1 then pins ++ [key] else pins))
include hone

/-- `I` holds of the references kept for the copies. -/
theorem deliverRemote_follows (entries : List (CacheKey × UInt32))
    (answers : List (ℕ × Except RemoteLookupError Unit))
    (b : Batch) (pins : List CacheKey) (submitted : List ℕ) (hg : I pins g) :
    (deliverRemote entries answers b pins submitted).Follows D g fun r => I r.2.1 := by
  induction answers generalizing b pins submitted g with
  | nil => exact hg
  | cons answer rest ih =>
    obtain ⟨pos, answer⟩ := answer
    cases hpos : entries[pos]? with
    | none =>
      unfold deliverRemote
      rw [hpos]
      exact ih b pins submitted hg
    | some e =>
      obtain ⟨key, size⟩ := e
      rcases answer with err | ⟨⟩
      · unfold deliverRemote
        rw [hpos]
        cases err <;> exact ih _ pins submitted hg
      · unfold deliverRemote
        rw [hpos]
        exact (hone pos key b pins g hg).bind fun r g' hr => ih _ _ _ hr

theorem remotePass_follows (hremote : ∀ es, Keeps D (I []) (perform (.remoteLookup es) :
      Proc (List (Except RemoteLookupError Unit)))) (hdevice : ∀ pins, Keeps D (I pins) device)
    (hrelease : ∀ key rest g, I (key :: rest) g → (releaseRead key).Follows D g fun _ => I rest)
    (cfg : BatchConfig) (entries : List (CacheKey × UInt32)) (b : Batch) :
    Keeps D (I []) (remotePass cfg entries b) := by
  intro g hg
  unfold remotePass
  split_ifs
  · refine (hremote _ g hg).bind fun answers g' hg' => ?_
    refine (deliverRemote_follows hone entries _ b [] [] hg').bind fun r g'' hr => ?_
    refine (syncCopies_keeps (hdevice r.2.1) _ _ _ _ g'' hr).bind fun b' g₃ h₃ => ?_
    refine (releasePins_follows hrelease r.2.1 h₃).bind fun _ g₄ h₄ => ?_
    exact h₄
  · exact hg

end

theorem recoverPass_keeps (hround : ∀ key, Keeps D P (serveRound key)) (cfg : BatchConfig)
    (entries : List (CacheKey × UInt32)) (i : ℕ) (b : Batch) :
    Keeps D P (recoverPass cfg i entries b) := by
  induction entries generalizing i b with
  | nil => exact keeps_ret _
  | cons e rest ih =>
    unfold recoverPass
    split
    · exact (serveConcurrentlyPromoted_keeps (hround _) _).bind fun r => ih _ _
    · exact ih _ _

/-! ### The passes together -/

section Reads

variable {I : List CacheKey → G → Prop} (h : Reads D I)
include h

variable {g : G}

theorem classifyOne_follows (cfg : BatchConfig) (i : ℕ) (key : CacheKey) (size : UInt32)
    (c : Classified) (hg : I c.warmPins g) :
    (classifyOne cfg i key size c).Follows D g fun c' => I c'.warmPins := by
  refine (h.lookupRetrying key c.warmPins lookupRetries hg).bind fun a g' ha => ?_
  rcases a with e | r
  · exact ha
  · cases r
    case notExist => exact ha
    case mismatchSize => exact ha.elim
    case memoryTier p n =>
      refine (serveMemoryTier_keeps (fun p n => h.copy p n _) p n g' ha).bind fun r g'' hg'' => ?_
      exact h.perm (perm_append_singleton key c.warmPins).symm hg''
    case blockDevice =>
      exact (h.release key c.warmPins g' ha).bind fun _ g'' hg'' => hg''

theorem deliverOne_follows (pos : ℕ) (key : CacheKey) (b : Batch) (pins : List CacheKey)
    (hg : I pins g) :
    (deliverOne pos key b).Follows D g fun r => I (if r.2.1 then pins ++ [key] else pins) := by
  refine (h.lookup key pins g hg).bind fun a g' ha => ?_
  rcases a with e | r
  · exact ha
  · cases r
    case notExist => exact ha
    case mismatchSize => exact ha.elim
    case memoryTier p n =>
      refine (serveMemoryTier_keeps (fun p n => h.copy p n _) p n g' ha).bind fun r g'' hg'' => ?_
      exact h.perm (perm_append_singleton key pins).symm hg''
    case blockDevice => exact (h.release key pins g' ha).bind fun _ g'' hg'' => hg''

end Reads

/-- **A batch** keeps to a discipline that lookups keep to, whatever references are held, and that
promotions keep to, whatever slots are reserved. -/
theorem batchLookup_keeps {I : List CacheKey → List ColdJob → G → Prop}
    (hreads : Reads D fun pins => I pins []) (hpromotes : ∀ pins, Promotes D cfg (I pins))
    (hremote : ∀ es, Keeps D (I [] []) (perform (.remoteLookup es) :
      Proc (List (Except RemoteLookupError Unit)))) (entries : List (CacheKey × UInt32)) :
    Keeps D (I [] []) (batchLookup cfg entries) := by
  intro g hg
  refine (classify_follows (fun i key size c g hg => classifyOne_follows hreads cfg i key size c hg)
    entries 0 _ hg).bind fun c g₁ h₁ => ?_
  refine (coldPass_follows (hpromotes c.warmPins) c.cold c.batch h₁).bind fun b g₂ h₂ => ?_
  refine (syncCopies_keeps (hreads.device _) _ _ _ b g₂ h₂).bind fun b g₃ h₃ => ?_
  refine (releasePins_follows (fun key rest g hg => hreads.release key rest g hg)
    c.warmPins h₃).bind fun _ g₄ h₄ => ?_
  refine (remotePass_follows (fun pos key b pins g hg => deliverOne_follows hreads pos key b pins hg)
    hremote hreads.device hreads.release cfg entries b g₄ h₄).bind fun b g₅ h₅ => ?_
  refine (recoverPass_keeps (fun key => serveRound_keeps hreads key []) cfg entries 0 b g₅ h₅).bind
    fun b g₆ h₆ => ?_
  exact h₆

end Certus.Dispatcher.Proc
