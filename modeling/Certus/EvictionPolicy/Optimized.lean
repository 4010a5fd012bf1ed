import Certus.EvictionPolicy.Lru
import Certus.Lib.Run

/-! # The optimized eviction policy

The list of the LRU policy, with a sketch of how often each key was tracked: a key that seems no more
frequent than the one at the front goes to the front. The operations on the list check an index
before they use it.

* **`estimate_bounds`** — the estimate of a key is its exact counter, or more if in every row
  another key shares its counter. -/

namespace Certus.EvictionPolicyOptimized

open EvictionPolicyLru

/-! ## The list -/

section

variable (lru : LruList)

/-- Insert a key at the front. -/
def pushFront (key : CacheKey) : Option (UInt32 × LruList) := do
  let node : Node := ⟨key, none, lru.head, true⟩
  let (idx, nodes, free) ←
    match lru.free with
    | freeIdx :: free => (updateNode lru.nodes freeIdx fun _ => node).map (freeIdx, ·, free)
    | [] => some (UInt32.ofNat lru.nodes.length, lru.nodes ++ [node], [])
  let nodes ← updateLink nodes lru.head fun n => { n with prev := some idx }
  some (idx,
    { nodes
      head := some idx
      tail := if lru.tail.isNone then some idx else lru.tail
      free
      len := lru.len + 1 })

/-- The key at the front. -/
def peekFrontKey : Option (Option CacheKey) :=
  match lru.head with
  | none => some none
  | some idx => lru.nodes[idx.toNat]?.map fun node => some node.key

/-- Move a node to the back. -/
def moveToBack (idx : UInt32) : Option LruList :=
  if lru.nodes.length ≤ idx.toNat then some lru else lru.moveToBack idx

/-- Take a node out of the list. -/
def remove (idx : UInt32) : Option LruList :=
  if lru.nodes.length ≤ idx.toNat then some lru else lru.remove idx

end

/-! ## The sketch -/

def cmsPrimes : Fin 4 → UInt64
  | 0 => 0x9E3779B97F4A7C15
  | 1 => 0x517CC1B727220A95
  | 2 => 0x6C62272E07BB0143
  | 3 => 0xD45D0D6AB7E0F981

/-- The column of a key in a row: the top ten bits of the wrapping product. -/
def column (row : Fin 4) (key : CacheKey) : Fin 1024 :=
  ⟨((key * cmsPrimes row) >>> 54).toNat, by
    rw [UInt64.toNat_shiftRight, Nat.shiftRight_eq_div_pow]
    exact Nat.div_lt_of_lt_mul (UInt64.toNat_lt _)⟩

/-- The counters, of eight bits each. -/
structure CountMinSketch where
  counters : Fin 4 → Fin 1024 → ℕ

namespace CountMinSketch

/-- All counters at zero. -/
def new : CountMinSketch := ⟨fun _ _ => 0⟩

variable (s : CountMinSketch)

/-- Count a key in each row. -/
def increment (key : CacheKey) : CountMinSketch :=
  ⟨fun row col => if col = column row key then min (s.counters row col + 1) 255
    else s.counters row col⟩

/-- The least counter of a key. -/
def estimate (key : CacheKey) : ℕ :=
  [0, 1, 2, 3].foldl (fun least row => min least (s.counters row (column row key))) 255

/-- Halve every counter. -/
def halve : CountMinSketch := ⟨fun row col => s.counters row col / 2⟩

theorem le_estimate_iff {n : ℕ} {key : CacheKey} :
    n ≤ s.estimate key ↔ n ≤ 255 ∧ ∀ row, n ≤ s.counters row (column row key) := by
  simp [estimate, Fin.forall_fin_succ]

end CountMinSketch

/-! ## Pools -/

/-- A pool. -/
structure Pool where
  lru : LruList
  sketch : CountMinSketch
  accessCount : ℕ
  maxLen : ℕ

namespace Pool

/-- A pool without keys. -/
def new : Pool := ⟨.new, .new, 0, 0⟩

variable (pool : Pool)

/-- The largest length seen by the next `track`. -/
def seenLen : ℕ := max pool.maxLen pool.lru.len

/-- The next `track` halves the sketch. -/
def Halves : Prop := 0 < pool.seenLen ∧ (pool.accessCount + 1) % (pool.seenLen * 10) = 0

instance decidableHalves : Decidable pool.Halves := inferInstanceAs (Decidable (_ ∧ _))

/-- The first half of `track`: the key is counted. -/
def count (key : CacheKey) : Pool :=
  { pool with
    sketch := if pool.Halves then (pool.sketch.increment key).halve else pool.sketch.increment key
    accessCount := pool.accessCount + 1
    maxLen := pool.seenLen }

/-- The second half: the key is put at the front or at the back. -/
def insert (key : CacheKey) : Option (UInt32 × LruList) := do
  match ← peekFrontKey pool.lru with
  | some headKey =>
    if pool.sketch.estimate key ≤ pool.sketch.estimate headKey then pushFront pool.lru key
    else pool.lru.pushBack key
  | none => pool.lru.pushBack key

/-- Register a key. -/
def track (key : CacheKey) : Option (UInt32 × Pool) := do
  let (idx, lru) ← (pool.count key).insert key
  some (idx, { pool.count key with lru })

/-- Choose the key at the front and stop tracking it. -/
def identifyNextToEvict : Option (Option CacheKey × Pool) := do
  let (key, lru) ← pool.lru.popFront
  some (key, { pool with lru })

/-- Empty the list. The sketch stays. -/
def clear : Pool := { pool with lru := pool.lru.clear }

end Pool

/-! ## Histories -/

/-- What happens to the counters. -/
inductive Turn where
  | tracked (key : CacheKey)
  | halved
  deriving DecidableEq, Repr

/-- What happens to one key, last first: it is tracked (`true`) or all counters are halved. -/
def history (key : CacheKey) (log : List Turn) : List Bool :=
  log.filterMap fun
    | .tracked k => if k = key then some true else none
    | .halved => some false

/-- A saturating counter of one key alone. -/
def exact : List Bool → ℕ
  | [] => 0
  | true :: past => min (exact past + 1) 255
  | false :: past => exact past / 2

theorem exact_le (past : List Bool) : exact past ≤ 255 := by
  induction past with
  | nil => exact Nat.zero_le _
  | cons turn past ih =>
    cases turn with
    | true => exact Nat.min_le_right ..
    | false => exact (Nat.div_le_self _ 2).trans ih

/-- No other key of the log shares the key's counter in the row. -/
def Unshared (log : List Turn) (row : Fin 4) (key : CacheKey) : Prop :=
  ∀ other, .tracked other ∈ log → column row other = column row key → other = key

/-- Every counter of a key is at least the exact one, and no more without collisions. -/
def Counts (s : CountMinSketch) (log : List Turn) : Prop :=
  ∀ row key, exact (history key log) ≤ s.counters row (column row key) ∧
    (Unshared log row key → s.counters row (column row key) = exact (history key log))

namespace Counts

variable {s : CountMinSketch} {log : List Turn}

variable (h : Counts s log)
include h

theorem increment (key : CacheKey) : Counts (s.increment key) (.tracked key :: log) := by
  intro row k
  obtain ⟨hle, heq⟩ := h row k
  have hold : Unshared (.tracked key :: log) row k → Unshared log row k := fun hun other hmem =>
    hun other (List.mem_cons_of_mem _ hmem)
  by_cases hk : key = k
  · -- the exact counter of the key and its counter in the row go up together
    subst hk
    have hexact : exact (history key (.tracked key :: log))
        = min (exact (history key log) + 1) 255 := by simp [history, exact]
    simp only [CountMinSketch.increment, if_pos, hexact]
    refine ⟨by omega, fun hun => ?_⟩
    rw [heq (hold hun)]
  · -- the exact counter of another key stays, its counter in the row may go up
    have hexact : exact (history k (.tracked key :: log)) = exact (history k log) := by
      simp [history, hk]
    have hmax := exact_le (history k log)
    simp only [CountMinSketch.increment, hexact]
    split_ifs with hcol
    · -- the two keys share the counter, which is raised
      exact ⟨by omega, fun hun => absurd (hun key List.mem_cons_self hcol.symm) hk⟩
    · exact ⟨hle, fun hun => heq (hold hun)⟩

theorem halve : Counts s.halve (.halved :: log) := by
  intro row k
  obtain ⟨hle, heq⟩ := h row k
  refine ⟨Nat.div_le_div_right hle, fun hun => ?_⟩
  exact congrArg (· / 2) (heq fun other hmem => hun other (List.mem_cons_of_mem _ hmem))

theorem le_estimate (key : CacheKey) : exact (history key log) ≤ s.estimate key :=
  s.le_estimate_iff.mpr ⟨exact_le _, fun row => (h row key).1⟩

theorem estimate_eq {row : Fin 4} {key : CacheKey} (hun : Unshared log row key) :
    s.estimate key = exact (history key log) := by
  refine Nat.le_antisymm ?_ (h.le_estimate key)
  rw [← (h row key).2 hun]
  exact (s.le_estimate_iff.mp (Nat.le_refl _)).2 row

end Counts

/-! ## Runs -/

/-- A call on the pool. -/
inductive Event where
  | track (key : CacheKey)
  | touch (idx : UInt32)
  | remove (idx : UInt32)
  | evict
  | clear
  deriving DecidableEq, Repr

/-- The pool and what has happened to its counters. -/
structure World where
  pool : Pool
  log : List Turn

namespace World

/-- The new pool. -/
def start : World := ⟨.new, []⟩

/-- A call that does not panic. -/
def step (w : World) : Event → Option World
  | .track key => do
      let (_, pool) ← w.pool.track key
      some ⟨pool, if w.pool.Halves then .halved :: .tracked key :: w.log else .tracked key :: w.log⟩
  | .touch idx => do
      let lru ← moveToBack w.pool.lru idx
      some { w with pool := { w.pool with lru } }
  | .remove idx => do
      let lru ← remove w.pool.lru idx
      some { w with pool := { w.pool with lru } }
  | .evict => do
      let (_, pool) ← w.pool.identifyNextToEvict
      some { w with pool }
  | .clear => some { w with pool := w.pool.clear }

variable {w w' : World}

/-- Only `track` counts. -/
theorem counts_step (h : Counts w.pool.sketch w.log) {e : Event} (hstep : w.step e = some w') :
    Counts w'.pool.sketch w'.log := by
  cases e with
  | track key =>
    obtain ⟨⟨idx, pool⟩, htrack, hw⟩ := Option.bind_eq_some_iff.mp hstep
    obtain ⟨⟨idx', lru⟩, -, hpool⟩ := Option.bind_eq_some_iff.mp htrack
    cases hpool
    cases hw
    -- where the key goes in the list does not matter for the counters
    dsimp only [Pool.count]
    split_ifs
    · exact (h.increment key).halve
    · exact h.increment key
  | touch idx | remove idx =>
    obtain ⟨lru, -, hw⟩ := Option.bind_eq_some_iff.mp hstep
    cases hw
    exact h
  | evict =>
    obtain ⟨⟨key, pool⟩, hevict, hw⟩ := Option.bind_eq_some_iff.mp hstep
    obtain ⟨⟨key', lru⟩, -, hpool⟩ := Option.bind_eq_some_iff.mp hevict
    cases hpool
    cases hw
    exact h
  | clear =>
    cases hstep
    exact h

/-- **The sketch never underestimates.** After every sequence of calls the estimate of a key is at
least its exact counter; of two keys with one history, one has the larger estimate only if in every
row it shares its counter with another key. -/
theorem estimate_bounds {es : List Event} (hrun : Run step anyStep start es w) :
    (∀ key, exact (history key w.log) ≤ w.pool.sketch.estimate key) ∧
    (∀ key row, Unshared w.log row key →
      w.pool.sketch.estimate key = exact (history key w.log)) ∧
    ∀ key key', history key w.log = history key' w.log →
      w.pool.sketch.estimate key < w.pool.sketch.estimate key' →
      ∀ row, ∃ other ≠ key', .tracked other ∈ w.log ∧ column row other = column row key' := by
  have h : Counts w.pool.sketch w.log :=
    hrun.invariant (I := fun w => Counts w.pool.sketch w.log)
      (fun _ _ => ⟨Nat.le_refl _, fun _ => rfl⟩) fun _ _ _ h _ hstep => counts_step h hstep
  refine ⟨h.le_estimate, fun _ _ => h.estimate_eq, fun key key' hsame hlt row => ?_⟩
  -- without another key in the row the larger estimate would be exact, and the smaller one is not less
  by_contra hnone
  push Not at hnone
  have hun : Unshared w.log row key' := fun other hmem hcol => by
    by_contra hne
    exact hnone other hne hmem hcol
  have hexact := h.estimate_eq hun
  have hle := h.le_estimate key
  rw [hsame, ← hexact] at hle
  exact Nat.lt_irrefl _ (hlt.trans_le hle)

/-- A key tracked twice, another once. -/
theorem estimate_bounds_two_keys : ∃ es w, Run step anyStep start es w ∧
    w.log = [.tracked 2, .tracked 1, .tracked 1] ∧
    ∀ key, exact (history key w.log) ≤ w.pool.sketch.estimate key := by
  refine ⟨[.track 1, .track 1, .track 2], exists_run_and_of_exec
    (fun w => w.log = [.tracked 2, .tracked 1, .tracked 1]) (by decide +kernel) fun hrun hlog => ?_⟩
  exact ⟨of_decide_eq_true hlog, (estimate_bounds hrun).1⟩

end World

end Certus.EvictionPolicyOptimized
