import Certus.DispatchMap.Map

/-! # Operations of the remote lookup

A remote lookup fetches the values of a batch of keys from peers. Each batch is one **operation**:
the state of its keys, the landing slots it has reserved in the local memory tier, and what the peers
have answered so far. -/

namespace Certus.RemoteLookup

/-- The name of a peer. -/
abbrev PeerId := ℕ

/-- The number of an operation. -/
abbrev OpId := ℕ

/-- What a peer says about a key. -/
inductive Avail
  | none
  | memory
  | disk
  deriving DecidableEq, Repr

/-- What a peer reports about a slot it was asked to fill. -/
inductive RdmaStatusCode
  | success
  | unableToConnect
  | keyNoLongerAvailable
  deriving DecidableEq, Repr

/-- The progress of a key. -/
inductive KeyState
  | unsatisfied
  | inProgress
  | satisfied
  deriving DecidableEq, Repr

/-- In the second phase, holders on disk are asked as well. -/
inductive Phase
  | phase1
  | phase2
  deriving DecidableEq, Repr

/-- A slot reserved for a key and advertised to `peer`. -/
structure LandingSlot where
  addr : Pointer
  len : UInt32
  peer : PeerId
  /-- The number of slots reserved before. -/
  serial : ℕ
  deriving DecidableEq, Repr

/-- The cached answer of a peer. -/
structure PeerReply where
  entries : List (CacheKey × UInt32 × Avail)
  deriving DecidableEq, Repr

/-- The answer to a batch, one result per entry. -/
abbrev BatchResult := List (Except RemoteLookupError Unit)

/-- One batch in progress. -/
structure Operation where
  entries : List (CacheKey × UInt32)
  state : OrdMap CacheKey KeyState
  slots : OrdMap CacheKey LandingSlot
  replies : OrdMap PeerId PeerReply
  tried : OrdMap CacheKey (List PeerId)
  deadline : ℕ
  phase1Deadline : ℕ
  phase : Phase
  peersExpected : ℕ
  peersReplied : ℕ

namespace Operation

/-- A batch of which nothing has been fetched. -/
def new (entries : List (CacheKey × UInt32)) (deadline phase1Deadline peersExpected : ℕ) :
    Operation where
  entries := entries
  state := entries.foldl (fun state e => state.insert e.1 .unsatisfied) OrdMap.empty
  slots := OrdMap.empty
  replies := OrdMap.empty
  tried := OrdMap.empty
  deadline := deadline
  phase1Deadline := phase1Deadline
  phase := .phase1
  peersExpected := peersExpected
  peersReplied := 0

section

variable (op : Operation) (key : CacheKey)

/-- Whether enough peers have answered. -/
def quorumReached (quorumPct : ℕ) : Bool :=
  decide (op.peersExpected = 0) || decide (op.peersExpected * quorumPct ≤ op.peersReplied * 100)

/-- The size asked for, that of the first entry with this key. -/
def sizeOf : Option UInt32 :=
  (op.entries.find? fun e => decide (e.1 = key)).map Prod.snd

/-- The progress of a key; one that is not part of the batch counts as unsatisfied. -/
def stateOf : KeyState :=
  (op.state.get? key).getD .unsatisfied

/-- Set the progress of a key of the batch. -/
def setState (s : KeyState) : Operation :=
  match op.state.get? key with
  | some _ => { op with state := op.state.insert key s }
  | none => op

/-- Whether all keys have been fetched. -/
def allSatisfied : Bool := op.state.values.all fun s => decide (s = .satisfied)

/-- The answer to the batch, in the order of its entries. -/
def results : BatchResult :=
  op.entries.map fun e => if op.stateOf e.1 = .satisfied then .ok () else .error .notFound

/-- Forget the answer of a peer. -/
def dropReply (peer : PeerId) : Operation :=
  { op with replies := op.replies.erase peer }

/-- Remember that a peer failed to serve a key. -/
def noteTried (peer : PeerId) : Operation :=
  let peers := (op.tried.get? key).getD []
  { op with tried := op.tried.insert key (if peer ∈ peers then peers else peers ++ [peer]) }

/-- Whether a peer has failed to serve a key. -/
def alreadyTried (peer : PeerId) : Bool :=
  decide (peer ∈ (op.tried.get? key).getD [])

/-- The peers not tried yet that hold a key of this size where `want` says. -/
def holders (size : UInt32) (want : Avail) : List PeerId :=
  (op.replies.entries.filter fun r =>
    !op.alreadyTried key r.1 && r.2.entries.any fun e => decide (e = (key, size, want))).map
      Prod.fst

end

variable {op : Operation} {key other : CacheKey} {s : KeyState}

/-! ### The progress of keys -/

@[simp] theorem setState_slots : (op.setState key s).slots = op.slots := by
  unfold setState
  split <;> rfl

@[simp] theorem setState_entries : (op.setState key s).entries = op.entries := by
  unfold setState
  split <;> rfl

theorem setState_stateOf_ne (h : other ≠ key) :
    (op.setState key s).stateOf other = op.stateOf other := by
  unfold setState stateOf
  split
  · simp [h]
  · rfl

/-- Setting a state that is not `Satisfied` leaves the key unsatisfied or in that state. -/
theorem setState_stateOf_self :
    (op.setState key s).stateOf key = s ∨ (op.setState key s).stateOf key = .unsatisfied := by
  unfold setState stateOf
  split
  · simp
  next hnone => simp [hnone]

/-- A key that has become satisfied was made so. -/
theorem satisfied_of_setState (h : (op.setState key s).stateOf other = .satisfied) :
    op.stateOf other = .satisfied ∨ other = key ∧ s = .satisfied := by
  by_cases hk : other = key
  · subst hk
    rcases @setState_stateOf_self op other s with hs | hs
    · exact .inr ⟨rfl, hs.symm.trans h⟩
    · rw [hs] at h
      cases h
  · rw [setState_stateOf_ne hk] at h
    exact .inl h

theorem stateOf_new (entries : List (CacheKey × UInt32)) (d₁ d₂ n : ℕ) :
    (new entries d₁ d₂ n).stateOf key = .unsatisfied := by
  suffices h : ∀ m : OrdMap CacheKey KeyState, (∀ s, m.get? key = some s → s = .unsatisfied) →
      ∀ s, (entries.foldl (fun state e => state.insert e.1 .unsatisfied) m).get? key = some s →
        s = .unsatisfied by
    unfold stateOf new
    dsimp only
    cases hget : (entries.foldl (fun state e => state.insert e.1 .unsatisfied)
        (OrdMap.empty : OrdMap CacheKey KeyState)).get? key with
    | none => rfl
    | some s => exact h _ (by simp) s hget
  intro m hm
  induction entries generalizing m with
  | nil => exact hm
  | cons e es ih =>
    refine ih _ fun s hs => ?_
    rw [OrdMap.get?_insert] at hs
    split_ifs at hs with hk
    · exact (Option.some.inj hs).symm
    · exact hm s hs

end Operation

end Certus.RemoteLookup
