import Certus.Dispatcher.Rules

/-! # Procedures about one key

Most procedures of the dispatcher are about one key: every call they make is about it, or about no
key at all. What is followed for a key is then left alone by the procedures about other keys.

Some calls are made by write jobs only, and the ledger's hand-over by `removeEntry` only; all other
calls are **plain**.

* **`About.keeps`** — such a procedure keeps what calls about other keys keep. -/

namespace Certus.Dispatcher

/-- A call that is neither peculiar to write jobs nor to the hand-over of a pin. -/
def Call.Plain : Call → Prop
  | .map (.convertToStorage _ _) | .tier (.peek _) => False
  | .pins (.pin _) => True
  | .pins _ => False
  | .extents (.reserve _) | .extents (.publish _) | .extents (.abort _) => False
  | .writeExtent _ _ _ | .jobDone _ => False
  | _ => True

namespace Proc

open Prog

/-- Every call of the procedure is about `key`, or about no key. -/
def About {α : Type} (key : CacheKey) (p : Proc α) : Prop :=
  p.Only fun c => c.key = some key ∨ c.key = none

section About

variable {α β : Type} {key k : CacheKey}

/-- To return calls nothing. -/
theorem about_ret (a : α) : About key (ret a : Proc α) := trivial

/-- A call about the key, and what follows it. -/
theorem About.call {c : Call} {f : c.Answer → Proc α} (hc : c.key = some key ∨ c.key = none)
    (hf : ∀ a, About key (f a)) : About key (perform c >>= f) := ⟨hc, hf⟩

/-- One procedure after the other. -/
theorem About.bind {p : Proc α} {f : α → Proc β} (hp : About key p) (hf : ∀ a, About key (f a)) :
    About key (p >>= f) := Only.bind hp hf

/-- A procedure about one key keeps what calls about other keys keep. -/
theorem About.keeps {p : Proc α} {G : Type} {D : Discipline Request Call.Answer G} {P : G → Prop}
    (hp : About key p)
    (h : ∀ c : Call, c.key ≠ some k → ∀ g, P g →
      D.allowed g c ∧ ∀ a, D.possible g c a → P (D.after g c a)) (hne : key ≠ k) : Keeps D P p := by
  refine keeps_of_only (fun c hc => h c ?_) hp
  rcases hc with hc | hc <;> rw [hc]
  · exact fun heq => hne (Option.some.inj heq)
  · exact (Option.some_ne_none k).symm

/-- Every call of the procedure is plain, and about `key` or about no key. -/
def Plainly (key : CacheKey) (p : Proc α) : Prop :=
  p.Only fun c => (c.key = some key ∨ c.key = none) ∧ c.Plain

/-- To return calls nothing. -/
theorem plainly_ret (a : α) : Plainly key (ret a : Proc α) := trivial

/-- A plain call about the key, and what follows it. -/
theorem Plainly.call {c : Call} {f : c.Answer → Proc α} (hc : c.key = some key ∨ c.key = none)
    (hplain : c.Plain) (hf : ∀ a, Plainly key (f a)) : Plainly key (perform c >>= f) :=
  ⟨⟨hc, hplain⟩, hf⟩

/-- One procedure after the other. -/
theorem Plainly.bind {p : Proc α} {f : α → Proc β} (hp : Plainly key p)
    (hf : ∀ a, Plainly key (f a)) : Plainly key (p >>= f) := Only.bind hp hf

/-- A procedure that is plain is about its key. -/
theorem Plainly.about {p : Proc α} (hp : Plainly key p) : About key p := hp.mono fun _ hc => hc.1

variable (key)

/-- A key is demoted and its slot freed. -/
theorem demote_plainly : Plainly key (demote key) := by
  unfold demote
  repeat' first | exact plainly_ret _ | refine .call (.inl rfl) trivial fun _ => ?_ | split

/-- A removal finds the location on the block device. -/
theorem removeProbe_plainly : Plainly key (removeProbe key) := by
  unfold removeProbe
  repeat' first | exact plainly_ret _ | refine .call (.inl rfl) trivial fun _ => ?_ | split

/-- The entry is removed from the map. -/
theorem removeEntry_about : About key (removeEntry key) := by
  unfold removeEntry
  repeat' first | exact about_ret _ | refine .call (.inl rfl) fun _ => ?_ | split

/-- A removal puts back what the probe flipped away. -/
theorem unflip_plainly (flipped : Option (Pointer × UInt32)) : Plainly key (unflip key flipped) := by
  unfold unflip
  split
  · exact .call (.inl rfl) trivial fun _ => plainly_ret _
  · exact plainly_ret _

/-- The slot and the extent of a removed entry are freed. -/
theorem freeRemoved_plainly (jobFreesSlot : Bool) (blockOffset : Option UInt64) :
    Plainly key (freeRemoved key jobFreesSlot blockOffset) := by
  cases jobFreesSlot <;> cases blockOffset
  · exact .call (.inl rfl) trivial fun _ => plainly_ret _
  · exact .call (.inl rfl) trivial fun _ => .call (.inr rfl) trivial fun _ => plainly_ret _
  · exact plainly_ret _
  · exact .call (.inr rfl) trivial fun _ => plainly_ret _

/-- **`remove`** is about the key it is given. -/
theorem remove_about : About key (remove key) := by
  refine (removeProbe_plainly key).about.bind fun r => ?_
  cases r with
  | error e => exact about_ret _
  | ok probe =>
    refine .call (.inl rfl) fun a => ?_
    rcases a with e | ⟨⟩
    · cases e
      case activeReferences =>
        refine (removeEntry_about key).bind fun r => ?_
        cases r
        · exact (unflip_plainly key _).about.bind fun _ => about_ret _
        · exact (freeRemoved_plainly key _ _).about
      all_goals exact about_ret _
    · exact (freeRemoved_plainly key _ _).about

/-- The evictor asks where an entry is that is only on a drive. -/
theorem getEvictableOffset_plainly : Plainly key (getEvictableOffset key) := by
  unfold getEvictableOffset
  repeat' first | exact plainly_ret _ | refine .call (.inl rfl) trivial fun _ => ?_ | split

/-- **Eviction from the SSD** of one key. -/
theorem evictOneFromSsd_plainly : Plainly key (evictOneFromSsd key) := by
  refine (getEvictableOffset_plainly key).bind fun r => ?_
  cases r with
  | none => exact plainly_ret _
  | some offset =>
    refine .call (.inl rfl) trivial fun a => ?_
    rcases a with e | ⟨⟩
    · exact plainly_ret _
    · exact .call (.inl rfl) trivial fun _ => .call (.inr rfl) trivial fun _ => plainly_ret _

/-- A key is taken out of the memory tier. -/
theorem clearKey_plainly : Plainly key (clearKey key) := by
  unfold clearKey
  repeat' first | exact plainly_ret _ | refine .call (.inl rfl) trivial fun _ => ?_ | split

/-- An extent is read into a reserved slot and the entry flipped. -/
theorem promoteInto_plainly (offset : UInt64) (size : UInt32) (memPtr : Pointer) :
    Plainly key (promoteInto key offset size memPtr) := by
  unfold promoteInto
  repeat' first
    | exact plainly_ret _ | refine .call (.inl rfl) trivial fun _ => ?_
    | refine .call (.inr rfl) trivial fun _ => ?_ | split

/-- A slot is freed unless an entry has it. -/
theorem freeUnlessLive_plainly (memPtr : Pointer) : Plainly key (freeUnlessLive key memPtr) := by
  unfold freeUnlessLive
  repeat' first | exact plainly_ret _ | refine .call (.inl rfl) trivial fun _ => ?_ | split

/-- **The commit** of a store. -/
theorem copyGpuToMemoryCompleted_plainly (size : UInt32) (deviceIndex : ℕ) :
    Plainly key (copyGpuToMemoryCompleted key size deviceIndex) := by
  refine .call (.inl rfl) trivial fun a => ?_
  rcases a with _ | ⟨memPtr, n⟩
  · exact plainly_ret _
  · refine .call (.inl rfl) trivial fun a => ?_
    rcases a with e | ⟨⟩
    · cases e
      case alreadyExists => exact (freeUnlessLive_plainly key memPtr).bind fun _ => plainly_ret _
      all_goals exact .call (.inl rfl) trivial fun _ => plainly_ret _
    · refine .call (.inl rfl) trivial fun a => ?_
      rcases a with e | ⟨⟩
      · exact plainly_ret _
      · exact .call (.inl rfl) trivial fun _ => plainly_ret _

/-- The copy from the GPU into the reserved slot. -/
theorem copyGpuToMemoryAsync_plainly (total : ℕ) : Plainly key (copyGpuToMemoryAsync key total) := by
  unfold copyGpuToMemoryAsync
  repeat' first
    | exact plainly_ret _ | refine .call (.inl rfl) trivial fun _ => ?_
    | refine .call (.inr rfl) trivial fun _ => ?_ | split

/-- The part of a store after the reservation. -/
theorem fillAndCommit_plainly (size : UInt32) (deviceIndex : ℕ) :
    Plainly key (fillAndCommit key size deviceIndex) := by
  refine (copyGpuToMemoryAsync_plainly key _).bind fun r => ?_
  rcases r with e | ⟨⟩
  · exact .call (.inl rfl) trivial fun _ => plainly_ret _
  · refine .call (.inr rfl) trivial fun ok => ?_
    cases ok
    · exact .call (.inl rfl) trivial fun _ => plainly_ret _
    · exact copyGpuToMemoryCompleted_plainly key size deviceIndex

/-- The data of a job goes to its drive. -/
theorem writeThrough_about (job : WriteJob) : About job.key (writeThrough job) := by
  unfold writeThrough
  repeat' first
    | exact about_ret _ | refine .call (.inl rfl) fun _ => ?_ | refine .call (.inr rfl) fun _ => ?_
    | split

/-- The SSD copy is recorded and the pin dropped, or just the pin. -/
theorem settleWriteThrough_about (written : Option UInt64) :
    About key (settleWriteThrough key written) := by
  cases written <;> exact .call (.inl rfl) fun _ => about_ret _

/-- The slot and the extent go, as `remove` took the entry meanwhile. -/
theorem discardWritten_about (written : Option UInt64) :
    About key (discardWritten key written) := by
  cases written
  · exact .call (.inl rfl) fun _ => about_ret _
  · exact .call (.inl rfl) fun _ => .call (.inr rfl) fun _ => about_ret _

/-- **A write job** is about the key of the job. -/
theorem runWriteJob_about (job : WriteJob) : About job.key (runWriteJob job) := by
  refine .call (.inl rfl) fun started => ?_
  cases started
  · refine (writeThrough_about job).bind fun written => .call (.inl rfl) fun owned => ?_
    cases owned
    · exact (discardWritten_about _ written).bind fun _ =>
        .call (.inl rfl) fun _ => about_ret _
    · exact .call (.inl rfl) fun _ => (settleWriteThrough_about _ written).bind fun _ =>
        .call (.inl rfl) fun _ => about_ret _
  · exact about_ret _
  · exact (writeThrough_about job).bind fun written =>
      (settleWriteThrough_about _ written).bind fun _ =>
        .call (.inl rfl) fun _ => about_ret _

/-- A round of the worker of a drive. -/
theorem workerRound_about (job : WriteJob) : About job.key (workerRound job) :=
  (runWriteJob_about job).bind fun _ => .call (.inr rfl) fun _ => about_ret _

/-- An extent is read into a reserved slot, delivered, and the entry flipped. -/
theorem serveInto_plainly (offset : UInt64) (size : UInt32) (memPtr : Pointer) :
    Plainly key (serveInto key offset size memPtr) := by
  unfold serveInto
  repeat' first
    | exact plainly_ret _ | refine .call (.inl rfl) trivial fun _ => ?_
    | refine .call (.inr rfl) trivial fun _ => ?_ | split

/-- An entry that was read is flipped, or its slot given back. -/
theorem promoteJob_plainly (job : ColdJob) (res : Except DispatcherError Unit) :
    Plainly job.1.key (promoteJob job res) := by
  rcases res with e | ⟨⟩
  · exact .call (.inl rfl) trivial fun _ => plainly_ret _
  · refine .call (.inl rfl) trivial fun r => ?_
    rcases r with e | ⟨⟩
    · exact .call (.inl rfl) trivial fun _ => plainly_ret _
    · exact plainly_ret _

/-- A client pins the key and unpins it later. -/
theorem pinUnpin_plainly : Plainly key (pinUnpin key) := by
  unfold pinUnpin
  repeat' first | exact plainly_ret _ | refine .call (.inl rfl) trivial fun _ => ?_ | split

/-- **A fetch from a peer** publishes under the key it asked for. -/
theorem remoteFetch_plainly (size : UInt32) (deviceIndex : ℕ) :
    Plainly key (remoteFetch key size deviceIndex) := by
  unfold remoteFetch
  repeat' first
    | exact plainly_ret _ | refine .call (.inl rfl) trivial fun _ => ?_
    | refine .call (.inr rfl) trivial fun _ => ?_ | split

end About

end Proc

end Certus.Dispatcher
