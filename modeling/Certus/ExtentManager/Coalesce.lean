import Certus.Lib.Run
import Mathlib.Data.List.Basic

/-! # Coalescing of concurrent checkpoint calls

`ExtentManager::checkpoint`: callers that find a checkpoint running wait for it instead of starting
their own. A caller computes a ticket from the number of completed checkpoints and returns without
running when that number has reached its ticket.

* **`step`** — one critical section of one call, or the start or end of its `run_checkpoint`. -/

namespace Certus.ExtentManager.Coalesce

open List

/-- Where a call of `checkpoint()` is. -/
inductive CallPhase
  /-- Not called yet. -/
  | absent
  /-- Waiting for the condition variable with a ticket. -/
  | waiting (needed : ℕ)
  /-- Has set `in_progress` and dropped the lock; `run_checkpoint` is about to start. -/
  | starting (needed : ℕ)
  /-- Inside `run_checkpoint`. -/
  | running (needed : ℕ)
  /-- `run_checkpoint` has returned; about to take the lock again. -/
  | finishing (needed : ℕ) (ok : Bool)
  /-- Has returned. -/
  | returned (ok : Bool)
  deriving DecidableEq, Repr

/-- What happened, by call. -/
inductive Event
  | enter (c : ℕ)
  | start (c : ℕ)
  | finish (c : ℕ) (ok : Bool)
  | ret (c : ℕ) (ok : Bool)
  deriving DecidableEq, Repr

open Event

/-- `CheckpointCoalesce` together with the calls and the log. -/
structure CoalesceState where
  completedSeq : ℕ
  inProgress : Bool
  phase : ℕ → CallPhase
  log : List Event

/-- One step of one call. -/
inductive Action
  | enter (c : ℕ)
  | wake (c : ℕ)
  | start (c : ℕ)
  | finish (c : ℕ) (ok : Bool)
  | settle (c : ℕ)
  deriving DecidableEq, Repr

/-- Before any call. -/
def init : CoalesceState := ⟨0, false, fun _ => .absent, []⟩

namespace CoalesceState

/-- Call `c` moves to phase `p`. -/
def move (s : CoalesceState) (c : ℕ) (p : CallPhase) : CoalesceState :=
  { s with phase := Function.update s.phase c p }

/-- Append to the log. -/
def note (s : CoalesceState) (e : Event) : CoalesceState := { s with log := s.log ++ [e] }

end CoalesceState

section

variable (s : CoalesceState)

/-- The steps of `checkpoint()`. -/
def step : Action → Option CoalesceState
  -- the first critical section: compute the ticket, then wait or go on
  | .enter c =>
    if s.phase c = .absent then
      let s := s.note (.enter c)
      if s.inProgress then some (s.move c (.waiting (s.completedSeq + 2)))
      else some { s.move c (.starting (s.completedSeq + 1)) with inProgress := true }
    else none
  -- the loop after a wake-up, which may be spurious
  | .wake c =>
    match s.phase c with
    | .waiting needed =>
      if s.completedSeq ≥ needed then some ((s.move c (.returned true)).note (.ret c true))
      else if s.inProgress then some s
      else some { s.move c (.starting needed) with inProgress := true }
    | _ => none
  | .start c =>
    match s.phase c with
    | .starting needed => some ((s.move c (.running needed)).note (.start c))
    | _ => none
  | .finish c ok =>
    match s.phase c with
    | .running needed => some ((s.move c (.finishing needed ok)).note (.finish c ok))
    | _ => none
  -- the last critical section
  | .settle c =>
    match s.phase c with
    | .finishing needed ok =>
      some { (s.move c (.returned ok)).note (.ret c ok) with
        completedSeq := if ok then needed else s.completedSeq
        inProgress := false }
    | _ => none

/-- The ticket of a call that holds `in_progress`. -/
def CallPhase.runTicket : CallPhase → Option ℕ
  | .starting n | .running n | .finishing n _ => some n
  | _ => none

/-- At most one call holds `in_progress`; in particular at most one `run_checkpoint` is under way. -/
def AtMostOneRun : Prop :=
  ∀ c d, (s.phase c).runTicket.isSome → (s.phase d).runTicket.isSome → c = d

/-- Every call that returned `Ok` was followed by a run that started after it entered and finished
with `Ok` before it returned. -/
def OkIsFresh : Prop :=
  ∀ c, ret c true ∈ s.log →
    ∃ d, [enter c, .start d, .finish d true, .ret c true].Sublist s.log

/-- A run is under way for a caller with the ticket after next: it had waited for a run that failed,
and its ticket is the one that new callers get. -/
def SharesTicket : Prop :=
  ∃ d, s.phase d = .running (s.completedSeq + 2) ∨
    ∃ ok, s.phase d = .finishing (s.completedSeq + 2) ok

/-- No call enters while its ticket would be that of the run under way. -/
def FreshTickets : Action → Prop
  | .enter _ => ¬ SharesTicket s
  | _ => True

end

/-! ## What a step does -/

/-- The steps, by what the code finds. -/
inductive Step (s : CoalesceState) : Action → CoalesceState → Prop
  | enterWait {c : ℕ} (hc : s.phase c = .absent) (hp : s.inProgress) :
      Step s (.enter c) ((s.note (.enter c)).move c (.waiting (s.completedSeq + 2)))
  | enterStart {c : ℕ} (hc : s.phase c = .absent) (hp : s.inProgress = false) :
      Step s (.enter c)
        { (s.note (.enter c)).move c (.starting (s.completedSeq + 1)) with inProgress := true }
  | wakeReturn {c n : ℕ} (hc : s.phase c = .waiting n) (hn : n ≤ s.completedSeq) :
      Step s (.wake c) ((s.move c (.returned true)).note (.ret c true))
  | wakeAgain {c n : ℕ} (hc : s.phase c = .waiting n) : Step s (.wake c) s
  | wakeStart {c n : ℕ} (hc : s.phase c = .waiting n) (hn : s.completedSeq < n)
      (hp : s.inProgress = false) :
      Step s (.wake c) { s.move c (.starting n) with inProgress := true }
  | start {c n : ℕ} (hc : s.phase c = .starting n) :
      Step s (.start c) ((s.move c (.running n)).note (.start c))
  | finish {c n : ℕ} (ok : Bool) (hc : s.phase c = .running n) :
      Step s (.finish c ok) ((s.move c (.finishing n ok)).note (.finish c ok))
  | settle {c n : ℕ} {ok : Bool} (hc : s.phase c = .finishing n ok) :
      Step s (.settle c)
        { (s.move c (.returned ok)).note (.ret c ok) with
          completedSeq := if ok then n else s.completedSeq
          inProgress := false }

variable {a : Action} {s t : CoalesceState}

theorem step_cases (h : step s a = some t) : Step s a t := by
  cases a with
  | enter c =>
    simp only [step] at h
    split_ifs at h with hc hp
    · cases h; exact .enterWait hc hp
    · cases h; exact .enterStart hc (Bool.eq_false_iff.mpr hp)
  | wake c =>
    simp only [step] at h
    cases hc : s.phase c with
    | waiting n =>
      rw [hc] at h
      dsimp only at h
      split_ifs at h with hn hp
      · cases h; exact .wakeReturn hc hn
      · cases h; exact .wakeAgain hc
      · cases h; exact .wakeStart hc (Nat.lt_of_not_le hn) (by simpa using hp)
    | _ => rw [hc] at h; cases h
  | start c =>
    simp only [step] at h
    cases hc : s.phase c with
    | starting n => rw [hc] at h; cases h; exact .start hc
    | _ => rw [hc] at h; cases h
  | finish c ok =>
    simp only [step] at h
    cases hc : s.phase c with
    | running n => rw [hc] at h; cases h; exact .finish ok hc
    | _ => rw [hc] at h; cases h
  | settle c =>
    simp only [step] at h
    cases hc : s.phase c with
    | finishing n ok => rw [hc] at h; cases h; exact .settle hc
    | _ => rw [hc] at h; cases h

section

variable (s : CoalesceState)

section

variable (c : ℕ) (p : CallPhase)

@[simp] theorem move_phase (d : ℕ) :
    (s.move c p).phase d = if d = c then p else s.phase d := Function.update_apply ..

@[simp] theorem move_log : (s.move c p).log = s.log := rfl

@[simp] theorem move_inProgress : (s.move c p).inProgress = s.inProgress := rfl

end

variable (e : Event)

@[simp] theorem note_phase : (s.note e).phase = s.phase := rfl

@[simp] theorem note_log : (s.note e).log = s.log ++ [e] := rfl

@[simp] theorem note_inProgress : (s.note e).inProgress = s.inProgress := rfl

end

/-! ## At most one run -/

/-- Only the holder of `in_progress` runs. -/
structure Exclusive (s : CoalesceState) : Prop where
  one : AtMostOneRun s
  flag : ∀ c, (s.phase c).runTicket.isSome → s.inProgress

theorem exclusive_init : Exclusive init where
  one _ _ h := by cases h
  flag _ h := by cases h

/-- Every step keeps the holder unique: `in_progress` is set only when it was clear, and cleared
only by its holder. -/
theorem Exclusive.step (hs : Exclusive s) (h : Coalesce.step s a = some t) : Exclusive t := by
  obtain ⟨one, flag⟩ := hs
  unfold AtMostOneRun at one
  cases step_cases h with
  | wakeAgain hc => exact ⟨one, flag⟩
  | settle hc =>
    -- nobody but `c` was running
    rename_i c n ok
    have hno : ∀ d, d ≠ c → (s.phase d).runTicket.isSome = false := fun d hd => by
      by_contra hd'
      exact hd (one d c ((Bool.not_eq_false _).mp hd') (by rw [hc]; rfl))
    have hnone : ∀ d, (if d = c then CallPhase.returned ok else s.phase d).runTicket.isSome
        = false := fun d => by
      split_ifs with hd
      · rfl
      · exact hno d hd
    refine ⟨fun d e hd => ?_, fun d hd => ?_⟩
    · rw [note_phase, move_phase, hnone] at hd
      cases hd
    · rw [note_phase, move_phase, hnone] at hd
      cases hd
  | _ =>
    refine ⟨fun d e => ?_, fun d => ?_⟩ <;>
      simp only [move_phase, note_phase, note_inProgress, move_inProgress] <;>
      grind [CallPhase.runTicket]

/-! ## `Ok` is fresh -/

/-- The run of `d` serves call `c`: it starts after `c` entered, as far as it has come. -/
def Serves (s : CoalesceState) (c d : ℕ) : Prop :=
  match s.phase d with
  | .running _ => [enter c, .start d].Sublist s.log
  | .finishing _ true => [enter c, .start d, .finish d true].Sublist s.log
  | _ => True

/-- The invariant of runs with fresh tickets. -/
structure Inv (s : CoalesceState) : Prop where
  excl : Exclusive s
  entered : ∀ c, s.phase c ≠ .absent → enter c ∈ s.log
  waiting_le : ∀ c n, s.phase c = .waiting n → n ≤ s.completedSeq + 2
  ticket_le : ∀ d r, (s.phase d).runTicket = some r → s.completedSeq < r ∧ r ≤ s.completedSeq + 2
  /-- A call whose ticket is reached has had its run. -/
  served : ∀ c n, s.phase c = .waiting n → n ≤ s.completedSeq →
    ∃ d, [enter c, .start d, .finish d true].Sublist s.log
  /-- A call that the run under way would satisfy is served by it. -/
  serves : ∀ c n d r, s.phase c = .waiting n → (s.phase d).runTicket = some r →
    s.completedSeq < n → n ≤ r → Serves s c d
  self : ∀ d, Serves s d d
  fresh : OkIsFresh s

theorem inv_init : Inv init where
  excl := exclusive_init
  entered c h := absurd rfl h
  waiting_le c n h := by cases h
  ticket_le d r h := by cases h
  served c n h := by cases h
  serves c n d r h := by cases h
  self d := trivial
  fresh c h := by cases h

section Log

variable {l log : List Event}

theorem sublist_snoc (h : l.Sublist log) (e : Event) : l.Sublist (log ++ [e]) :=
  sublist_append_of_sublist_left h

/-- A new event comes after what was there. -/
theorem sublist_snoc_snoc (h : l.Sublist log) (e : Event) : (l ++ [e]).Sublist (log ++ [e]) :=
  h.append_right [e]

/-- What was fresh stays fresh, whatever happens. -/
theorem OkIsFresh.note {s : CoalesceState} (h : OkIsFresh s) {e : Event}
    (he : ∀ c, e = .ret c true → ∃ d, [enter c, .start d, .finish d true].Sublist s.log) :
    OkIsFresh (s.note e) := by
  intro c hc
  rcases mem_append.mp hc with hc | hc
  · obtain ⟨d, hd⟩ := h c hc
    exact ⟨d, sublist_snoc hd e⟩
  · obtain rfl := mem_singleton.mp hc
    obtain ⟨d, hd⟩ := he c rfl
    exact ⟨d, sublist_snoc_snoc hd _⟩

/-- A run serves whom it served, when only the log grows or another call moves. -/
theorem Serves.mono {s t : CoalesceState} {c d : ℕ} (h : Serves s c d)
    (hphase : t.phase d = s.phase d) (hlog : s.log.Sublist t.log) : Serves t c d := by
  unfold Serves at h ⊢
  rw [hphase]
  revert h
  cases s.phase d with
  | running n => exact fun h => h.trans hlog
  | finishing n ok =>
    cases ok with
    | true => exact fun h => h.trans hlog
    | false => exact fun _ => trivial
  | _ => exact fun _ => trivial

end Log

/-- A call without a run serves vacuously. -/
theorem Serves.of_none {c d : ℕ} (h : (s.phase d).runTicket = none) : Serves s c d := by
  unfold Serves
  cases hd : s.phase d with
  | running n | finishing n ok => rw [hd] at h; cases h
  | _ => trivial

/-- A step that moves call `c` to phase `q`, extends the log and completes no checkpoint: what has
to be checked is what concerns `c`. -/
theorem Inv.move (hs : Inv s) (c : ℕ) (q : CallPhase) (hex : Exclusive t)
    (hseq : t.completedSeq = s.completedSeq)
    (hphase : ∀ d, t.phase d = if d = c then q else s.phase d) (hlog : s.log.Sublist t.log)
    (hentered : q ≠ .absent → enter c ∈ t.log)
    (hwait : ∀ n, q = .waiting n → n = s.completedSeq + 2)
    (hnew : ∀ n d r, q = .waiting n → d ≠ c → (s.phase d).runTicket = some r → n ≤ r → Serves t c d)
    (hticket : ∀ r, q.runTicket = some r → s.completedSeq < r ∧ r ≤ s.completedSeq + 2)
    (hserves : ∀ d, d ≠ c → enter d ∈ s.log → (∀ n r, s.phase d = .waiting n →
      q.runTicket = some r → s.completedSeq < n → n ≤ r → Serves t d c)) (hself : Serves t c c)
    (hfresh : OkIsFresh t) : Inv t := by
  have hc : t.phase c = q := by rw [hphase, if_pos rfl]
  have hother : ∀ d, d ≠ c → t.phase d = s.phase d := fun d hd => by rw [hphase, if_neg hd]
  refine ⟨hex, fun d hd => ?_, fun d n hd => ?_, fun d r hd => ?_, fun d n hd hn => ?_,
    fun d n e r hd he hlt hle => ?_, fun d => ?_, hfresh⟩
  · by_cases hdc : d = c
    · subst hdc
      exact hentered (hc ▸ hd)
    · exact hlog.subset (hs.entered d (hother d hdc ▸ hd))
  · rw [hseq]
    by_cases hdc : d = c
    · subst hdc
      exact Nat.le_of_eq (hwait n (hc ▸ hd))
    · exact hs.waiting_le d n (hother d hdc ▸ hd)
  · rw [hseq]
    by_cases hdc : d = c
    · subst hdc
      exact hticket r (hc ▸ hd)
    · exact hs.ticket_le d r (hother d hdc ▸ hd)
  · rw [hseq] at hn
    by_cases hdc : d = c
    · subst hdc
      have := hwait n (hc ▸ hd)
      omega
    · obtain ⟨e, he⟩ := hs.served d n (hother d hdc ▸ hd) hn
      exact ⟨e, he.trans hlog⟩
  · rw [hseq] at hlt
    by_cases hdc : d = c <;> by_cases hec : e = c
    · -- one call is not both waiting and running
      subst hdc hec
      rw [hd] at he
      cases he
    · subst hdc
      exact hnew n e r (hc ▸ hd) hec (hother e hec ▸ he) hle
    · subst hec
      exact hserves d hdc (hs.entered d (by rw [← hother d hdc, hd]; simp)) n r
        (hother d hdc ▸ hd) (hc ▸ he) hlt hle
    · exact (hs.serves d n e r (hother d hdc ▸ hd) (hother e hec ▸ he) hlt hle).mono
        (hother e hec) hlog
  · by_cases hdc : d = c
    · subst hdc
      exact hself
    · exact (hs.self d).mono (hother d hdc) hlog

/-- The last critical section: the calls that the new count satisfies were served by this run. -/
theorem Inv.settle {c n : ℕ} {ok : Bool} (hs : Inv s) (hex : Exclusive t)
    (hc : s.phase c = .finishing n ok) (ht : t = { (s.move c (.returned ok)).note (.ret c ok) with
      completedSeq := if ok then n else s.completedSeq, inProgress := false }) : Inv t := by
  have hlog : t.log = s.log ++ [.ret c ok] := by rw [ht]; rfl
  have hseq : t.completedSeq = if ok then n else s.completedSeq := by rw [ht]
  have hphase : ∀ d, t.phase d = if d = c then .returned ok else s.phase d := fun d => by
    rw [ht]
    exact move_phase s c _ d
  have hnone : ∀ d, (t.phase d).runTicket = none := fun d => by
    cases hr : (t.phase d).runTicket with
    | none => rfl
    | some r =>
      have := hex.flag d (by rw [hr]; rfl)
      rw [ht] at this
      cases this
  obtain ⟨hlt, hle⟩ := hs.ticket_le c n (by rw [hc]; rfl)
  have hsub : s.log.Sublist t.log := hlog ▸ sublist_append_left _ _
  -- who waits now waited before
  have hwait : ∀ d m, t.phase d = .waiting m → s.phase d = .waiting m := fun d m hd => by
    rw [hphase] at hd
    split_ifs at hd with hdc
    exact hd
  refine ⟨hex, fun d hd => ?_, fun d m hd => ?_, fun d r hd => ?_, fun d m hd hm => ?_,
    fun d m e r _ he => ?_, fun d => Serves.of_none (hnone d), ?_⟩
  · by_cases hdc : d = c
    · subst hdc
      exact hsub.subset (hs.entered d (by simp [hc]))
    · rw [hphase, if_neg hdc] at hd
      exact hsub.subset (hs.entered d hd)
  · have := hs.waiting_le d m (hwait d m hd)
    rw [hseq]
    split_ifs <;> omega
  · rw [hnone] at hd
    cases hd
  · have hd' := hwait d m hd
    by_cases hm' : m ≤ s.completedSeq
    · obtain ⟨e, he⟩ := hs.served d m hd' hm'
      exact ⟨e, he.trans hsub⟩
    · -- satisfied by this very run
      rw [hseq] at hm
      cases ok with
      | false => exact absurd (by simpa using hm) hm'
      | true =>
        have hserve := hs.serves d m c n hd' (by rw [hc]; rfl) (Nat.lt_of_not_le hm')
          (by simpa using hm)
        unfold Serves at hserve
        rw [hc] at hserve
        exact ⟨c, hserve.trans hsub⟩
  · rw [hnone] at he
    cases he
  · have hnote : OkIsFresh (s.note (.ret c ok)) := hs.fresh.note fun d hd => by
      cases hd
      have hself := hs.self c
      unfold Serves at hself
      rw [hc] at hself
      exact ⟨c, hself⟩
    unfold OkIsFresh at hnote ⊢
    rw [hlog]
    exact hnote

theorem Inv.step (hs : Inv s) (hok : FreshTickets s a) (h : Coalesce.step s a = some t) :
    Inv t := by
  have hex := hs.excl.step h
  cases step_cases h with
  | enterWait hc hp =>
    rename_i c
    refine hs.move c (.waiting (s.completedSeq + 2)) hex rfl fun d => by simp
      (sublist_append_left _ _) (fun _ => by simp) fun n hn => by cases hn; rfl
      (fun n d r hn hd hr hle => ?_) fun r hr => by cases hr
      (fun d _ _ n r _ hr => by cases hr) (by simp [Serves]) (hs.fresh.note fun d hd => by cases hd)
    -- a run with this ticket has not started, or tickets would be shared
    cases hn
    have hr' : r = s.completedSeq + 2 := Nat.le_antisymm (hs.ticket_le d r hr).2 hle
    subst hr'
    have hph : ((s.note (.enter c)).move c (.waiting (s.completedSeq + 2))).phase d = s.phase d := by
      simp [hd]
    unfold Serves
    rw [hph]
    cases hpd : s.phase d with
    | running n =>
      rw [hpd] at hr
      cases hr
      exact absurd ⟨d, .inl hpd⟩ hok
    | finishing n ok =>
      rw [hpd] at hr
      cases hr
      exact absurd ⟨d, .inr ⟨ok, hpd⟩⟩ hok
    | _ => trivial
  | enterStart hc hp =>
    rename_i c
    exact hs.move c (.starting (s.completedSeq + 1)) hex rfl fun d => by simp
      (sublist_append_left _ _) (fun _ => by simp) (fun n hn => by cases hn) fun n d r hn => by cases hn
      (fun r hr => by cases hr; omega) fun d _ _ n r _ _ _ _ => by simp [Serves]
      (by simp [Serves]) (hs.fresh.note fun d hd => by cases hd)
  | wakeReturn hc hn =>
    rename_i c n
    refine hs.move c (.returned true) hex rfl (fun d => by simp) (sublist_append_left _ _)
      (fun _ => by simp [hs.entered c (by simp [hc])]) fun n hn => by cases hn
      (fun n d r hn => by cases hn) fun r hr => by cases hr
      (fun d _ _ n r _ hr => by cases hr) (by simp [Serves]) ?_
    refine OkIsFresh.note (s := s.move c (.returned true)) hs.fresh fun d hd => ?_
    cases hd
    exact hs.served c n hc hn
  | wakeAgain hc => exact hs
  | wakeStart hc hn hp =>
    rename_i c n
    exact hs.move c (.starting n) hex rfl (fun d => by simp) (List.Sublist.refl _)
      (fun _ => hs.entered c (by simp [hc])) fun n hn => by cases hn
      fun n d r hn => by cases hn
      fun r hr => by cases hr; exact ⟨hn, hs.waiting_le c n hc⟩
      (fun d _ _ n r _ _ _ _ => by simp [Serves]) (by simp [Serves]) hs.fresh
  | start hc =>
    rename_i c n
    have henter := hs.entered c (by simp [hc])
    refine hs.move c (.running n) hex rfl (fun d => by simp) (sublist_append_left _ _)
      (fun _ => by simp [henter]) (fun n hn => by cases hn) fun n d r hn => by cases hn
      (fun r hr => hs.ticket_le c r (by rw [hc]; exact hr)) (fun d _ hd n r _ _ _ _ => ?_) ?_
      (OkIsFresh.note (s := s.move c (.running n)) hs.fresh fun d hd => by cases hd)
    · simpa [Serves] using sublist_snoc_snoc (singleton_sublist.mpr hd) (.start c)
    · simpa [Serves] using sublist_snoc_snoc (singleton_sublist.mpr henter) (.start c)
  | finish ok hc =>
    rename_i c n
    have hserve : ∀ d, Serves s d c →
        Serves ((s.move c (.finishing n ok)).note (.finish c ok)) d c := by
      intro d hd
      unfold Serves at hd ⊢
      rw [hc] at hd
      simp only [note_phase, move_phase, if_true, note_log, move_log]
      cases ok with
      | true => exact sublist_snoc_snoc hd _
      | false => trivial
    refine hs.move c (.finishing n ok) hex rfl (fun d => by simp) (sublist_append_left _ _)
      (fun _ => by simp [hs.entered c (by simp [hc])]) fun n hn => by cases hn
      (fun n d r hn => by cases hn) (fun r hr => hs.ticket_le c r (by rw [hc]; exact hr))
      (fun d _ _ m r hm hr hlt hle => ?_) (hserve c (hs.self c))
      (OkIsFresh.note (s := s.move c (.finishing n ok)) hs.fresh fun d hd => by cases hd)
    exact hserve d (hs.serves d m c r hm (by rw [hc]; exact hr) hlt hle)
  | settle hc => exact hs.settle hex hc rfl

/-! ## The guarantees of `checkpoint()` -/

/-- **At most one run, and `Ok` is fresh.** In every run at most one `run_checkpoint` is under way.
In every run in which no call enters while a caller that waited for a failed run is running with the
ticket a new call would get, each call that returned `Ok` was followed by a run that started after
the call entered and finished with `Ok` before the call returned. -/
theorem ok_is_fresh (as : List Action) (s : CoalesceState) :
    (Run step anyStep init as s → AtMostOneRun s) ∧
      (Run step FreshTickets init as s → AtMostOneRun s ∧ OkIsFresh s) := by
  refine ⟨fun h => ?_, fun h => ?_⟩
  · exact (h.invariant exclusive_init fun t a u ht _ => ht.step).one
  · have hinv : Inv s := h.invariant inv_init fun t a u ht hok hstep => ht.step hok hstep
    exact ⟨hinv.excl.one, hinv.fresh⟩

/-- Two callers: the second waits for the first run, then runs itself, and returns `Ok`. -/
def twoCallers : List Action :=
  [.enter 0, .enter 1, .start 0, .finish 0 true, .settle 0, .wake 1, .start 1, .finish 1 true,
    .settle 1]

/-- The guarantee at work: call `1` waited for a run that had started before it entered, and
returned `Ok` after its own. -/
theorem second_caller_is_fresh :
    ∃ s, Run step FreshTickets init twoCallers s ∧ ret 1 true ∈ s.log ∧ OkIsFresh s := by
  obtain ⟨s, hs, hlog⟩ : ∃ s, exec step init twoCallers = some s ∧ ret 1 true ∈ s.log :=
    ⟨_, rfl, by decide⟩
  have hguard : Guarded step FreshTickets init twoCallers := by
    refine ⟨?_, _, rfl, ?_, _, rfl, trivial, _, rfl, trivial, _, rfl, trivial, _, rfl, trivial, _,
      rfl, trivial, _, rfl, trivial, _, rfl, trivial, _, rfl, trivial⟩
    · rintro ⟨d, hd | ⟨ok, hd⟩⟩ <;> cases hd
    · rintro ⟨d, hd⟩
      by_cases h0 : d = 0
      · subst h0
        rcases hd with hd | ⟨ok, hd⟩ <;> cases hd
      · simp [h0, init] at hd
  have hrun := run_of_guarded hs hguard
  exact ⟨s, hrun, hlog, ((ok_is_fresh _ s).2 hrun).2⟩

/-- A failed run and three callers: `0` fails, `1` runs with the ticket that `2` gets while that
run is under way. -/
def failedThenShared : List Action :=
  [.enter 0, .enter 1, .start 0, .finish 0 false, .settle 0, .wake 1, .start 1, .enter 2,
    .finish 1 true, .settle 1, .wake 2]

/-- **A late caller is served by an old run.** After a failed run, call `2` returns `Ok` although
no run started after it entered. -/
theorem late_caller_served_by_old_run :
    ∃ s, Run step anyStep init failedThenShared s ∧ ret 2 true ∈ s.log ∧ ¬ OkIsFresh s := by
  obtain ⟨s, hs, hlog⟩ : ∃ s, exec step init failedThenShared = some s ∧
      s.log = [.enter 0, .enter 1, .start 0, .finish 0 false, .ret 0 false, .start 1, .enter 2,
        .finish 1 true, .ret 1 true, .ret 2 true] := ⟨_, rfl, rfl⟩
  have hret : ret 2 true ∈ s.log := by rw [hlog]; decide
  refine ⟨s, run_of_exec hs, hret, fun hfresh => ?_⟩
  obtain ⟨d, hd⟩ := hfresh 2 hret
  rw [hlog] at hd
  have hstart : start d ∈ [enter 0, .enter 1, .start 0, .finish 0 false, .ret 0 false,
      .start 1, .enter 2, .finish 1 true, .ret 1 true, .ret 2 true] := hd.subset (by simp)
  simp only [mem_cons, start.injEq, reduceCtorEq, not_mem_nil, false_or, or_false] at hstart
  rcases hstart with rfl | rfl <;> exact absurd hd (by decide)

end Certus.ExtentManager.Coalesce
