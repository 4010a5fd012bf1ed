import Certus.Dispatcher.OneKey

/-! # What all procedures but the jobs keep

A property of a ghost value that plain calls keep is kept by every procedure but the jobs, provided
that `removeEntry` keeps it.

* **`body_keeps_of_plain`** — so do the procedures. -/

namespace Certus.Dispatcher

open Prog Proc

/-- Plain calls keep to the discipline and keep `P`, and lookups answer as they do. -/
structure PlainlyKept {G : Type} (D : Discipline Request Call.Answer G) (P : G → Prop) : Prop where
  genuine : ∀ g c a, D.possible g c a → c.Genuine a
  call : ∀ c : Call, c.Plain → ∀ g, P g →
    D.allowed g c ∧ ∀ a, D.possible g c a → P (D.after g c a)

namespace PlainlyKept

open Proc

variable {G : Type} {D : Discipline Request Call.Answer G} {P : G → Prop} {α : Type}
  {key : CacheKey} (h : PlainlyKept D P)
include h

theorem only {p : Proc α} (hp : p.Only Call.Plain) : Keeps D P p := keeps_of_only h.call hp

/-- A procedure about a key that makes plain calls only. -/
theorem plainly {p : Proc α} (hp : Plainly key p) : Keeps D P p := h.only (hp.mono fun _ hc => hc.2)

theorem evicts : Evicts D P where
  usage := h.only met
  oldest _ := h.only met
  demote key := h.plainly (demote_plainly key)

theorem insert {size : UInt32} (g : G) (hg : P g) :
    (tierInsert key size).Follows D g (Reserved P fun _ => P) := by
  have hkeeps : Keeps D P (tierInsert key size) := h.only met
  refine (hkeeps g hg).mono fun a g' hg' => ?_
  cases a <;> exact hg'

theorem contains : Keeps D P (tierContains key) := h.only met

theorem device : Keeps D P device := h.only met

theorem reads : Reads D fun _ => P where
  perm _ hg := hg
  lookup key pins g hg := by
    have hgen := h.genuine g (.map (.lookup key))
    obtain ⟨hallowed, hafter⟩ := h.call (.map (.lookup key)) trivial g hg
    refine ⟨hallowed, fun a ha => ?_⟩
    have hg' := hafter a ha
    rcases a with e | res
    · exact hg'
    · cases res
      case mismatchSize => exact hgen _ ha rfl
      all_goals exact hg'
  release _ _ := h.only met
  entrySize _ _ := h.only met
  copy _ _ _ := h.only met
  device _ := h.device

/-! ## Procedures -/

/-- A removal, apart from the hand-over of the pin. -/
theorem remove (hentry : Keeps D P (removeEntry key)) : Keeps D P (remove key) := by
  refine (h.plainly (removeProbe_plainly key)).bind fun r => ?_
  rcases r with e | probe
  · exact keeps_ret _
  · refine Keeps.bind (h.only met) fun a => ?_
    rcases a with e | ⟨⟩
    · cases e
      case activeReferences =>
        refine hentry.bind fun r => ?_
        cases r with
        | some jobFrees => exact h.plainly (freeRemoved_plainly key _ _)
        | none => exact (h.plainly (unflip_plainly key _)).bind fun _ => keeps_ret _
      all_goals exact keeps_ret _
    · exact h.plainly (freeRemoved_plainly key _ _)

theorem clears (hentry : ∀ key, Keeps D P (removeEntry key)) : Clears D P where
  oldest _ := h.only met
  list := h.only met
  free _ := h.only met
  remove key := h.remove (hentry key)

theorem promoteOne (maxAttempts : ℕ) (offset : UInt64) (size : UInt32) :
    Keeps D P (promoteOne maxAttempts key offset size) := by
  refine (evictForSpace_keeps h.evicts size maxAttempts).bind fun r => ?_
  rcases r with e | ⟨⟩
  · exact keeps_ret _
  · refine Keeps.bind (h.only met) fun r => ?_
    rcases r with e | p
    · exact keeps_ret _
    · exact h.plainly (promoteInto_plainly key offset size p)

theorem serves (offset : UInt64) (size : UInt32) : Serves D P key offset size where
  evicts := h.evicts
  contains := h.contains
  reserve := ⟨fun _ => P, h.insert, fun p => h.plainly (serveInto_plainly key offset size p)⟩
  stage _ := h.only met

theorem promotes (cfg : BatchConfig) : Promotes D cfg fun _ => P where
  reserve _ _ _ hg := evictAndInsert_follows h.evicts h.contains h.insert cfg.maxAttempts hg
  free _ _ _ := h.only met
  promote job res _ := h.plainly (promoteJob_plainly job res)
  device _ := h.device
  read _ _ _ _ := h.only met
  copy _ _ _ := h.only met
  stage _ _ := h.only met

end PlainlyKept

theorem keeps_forget {G α : Type} {D : Discipline Request Call.Answer G} {P : G → Prop}
    {p : Proc α} (h : Keeps D P p) : Keeps D P p.forget :=
  h.bind fun _ => keeps_ret _

/-- **All procedures but the jobs** keep what plain calls and the hand-over of a pin keep. -/
theorem body_keeps_of_plain {G : Type} {D : Discipline Request Call.Answer G} {P : G → Prop}
    (h : PlainlyKept D P) (hentry : ∀ key, Keeps D P (Proc.removeEntry key)) {r : Request}
    (hr : ∀ job birth, r ≠ .writeJob job birth) : Keeps D P r.body := by
  cases r with
  | populate key size maxAttempts polls d =>
    exact keeps_forget (populate_keeps h.evicts h.contains h.insert maxAttempts polls d
      fun _ => h.plainly (fillAndCommit_plainly key size d))
  | commit key size d => exact keeps_forget (h.plainly (copyGpuToMemoryCompleted_plainly key size d))
  | remove key => exact keeps_forget (h.remove (hentry key))
  | evictOneClean scan => exact keeps_forget (evictOneClean_keeps h.evicts scan)
  | memoryTierEvictor scan => exact memoryTierEvictor_keeps h.evicts h.device scan
  | ssdEvictor batch =>
    exact ssdEvictor_keeps (fun _ => h.only met)
      (fun key => h.plainly (evictOneFromSsd_plainly key)) h.device batch
  | clearMemoryTier rounds =>
    exact keeps_forget (clearMemoryTier_keeps h.evicts.oldest
      (fun key => h.plainly (clearKey_plainly key)) rounds)
  | clearAll rounds => exact keeps_forget (clearAll_keeps (h.clears hentry) 0 rounds)
  | promote keys maxAttempts =>
    exact promoteToMemoryTier_keeps maxAttempts
      (fun key => coldKey_keeps h.reads key []) (fun _ => h.promoteOne maxAttempts) keys
  | lookup key size maxAttempts rounds =>
    exact keeps_forget (lookupAsync_keeps h.reads key [] size maxAttempts rounds
      fun offset => h.serves offset size)
  | batchLookup cfg entries =>
    exact keeps_forget (batchLookup_keeps (I := fun _ _ => P) h.reads
      (fun _ => h.promotes cfg) (fun _ => h.only met) entries)
  | check key => exact keeps_forget (check_keeps h.reads key [])
  | pin key => exact h.plainly (pinUnpin_plainly key)
  | remoteFetch key size d => exact h.plainly (remoteFetch_plainly key size d)
  | writeJob job birth => exact absurd rfl (hr job birth)

end Certus.Dispatcher
