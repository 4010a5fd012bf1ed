import Mathlib.Data.List.Basic
import Mathlib.Tactic.Linarith

/-! # Guarded runs of a partial step function

A system is a partial step function `step : σ → α → Option σ`: the state after the atomic action
`a`, or `none` when `a` is not enabled. A **run** is a finite sequence of enabled actions, each of
which also meets a guard `ok : σ → α → Prop` in the state it is taken from; the guard `anyStep`
admits every run.

* **`Run.invariant`** — what holds at the start and is kept by every guarded step holds at the end. -/

namespace Certus

universe u v

variable {σ : Type u} {α : Type v}

/-- `Run step ok s as t`: from `s` the actions `as` are enabled one after the other, each meets the
guard `ok` in the state it is taken from, and the last one ends in `t`. -/
inductive Run (step : σ → α → Option σ) (ok : σ → α → Prop) : σ → List α → σ → Prop
  | nil (s : σ) : Run step ok s [] s
  | snoc {s t u : σ} {as : List α} {a : α} (prior : Run step ok s as t) (guard : ok t a)
      (next : step t a = some u) : Run step ok s (as ++ [a]) u

open Run

/-- The guard that admits every step. -/
def anyStep (_ : σ) (_ : α) : Prop := True

variable {step : σ → α → Option σ} {ok ok' : σ → α → Prop}

variable {as : List α} {s t : σ} {P : σ → Bool}

/-- **The invariant rule.** A property of the first state that every guarded step preserves holds in
the last state of every run. -/
theorem Run.invariant {I : σ → Prop} (h0 : I s)
    (hstep : ∀ t a u, I t → ok t a → step t a = some u → I u) (hrun : Run step ok s as t) :
    I t := by
  induction hrun with
  | nil => exact h0
  | snoc _ guard next ih => exact hstep _ _ _ ih guard next

/-- Runs under a guard are runs under any weaker guard. -/
theorem Run.mono (h : ∀ s a, ok s a → ok' s a) (hrun : Run step ok s as t) :
    Run step ok' s as t := by
  induction hrun with
  | nil => exact nil _
  | snoc _ guard next ih => exact snoc ih (h _ _ guard) next

/-- What holds in every state that guarded runs reach can be added to the guard. -/
theorem Run.strengthen {P : σ → Prop} (h : ∀ as t, Run step ok s as t → P t)
    (hrun : Run step ok s as t) : Run step (fun s a => ok s a ∧ P s) s as t := by
  induction hrun with
  | nil => exact nil _
  | snoc prior guard next ih => exact snoc ih ⟨guard, h _ _ prior⟩ next

/-- Two runs that meet compose. -/
theorem Run.trans {s t u : σ} {as bs : List α} (h₁ : Run step ok s as t)
    (h₂ : Run step ok t bs u) : Run step ok s (as ++ bs) u := by
  induction h₂ with
  | nil => rwa [List.append_nil]
  | snoc _ guard next ih => rw [← List.append_assoc]; exact snoc ih guard next

/-- A single guarded step is a run. -/
theorem Run.single {a : α} (guard : ok s a) (next : step s a = some t) : Run step ok s [a] t :=
  snoc (nil s) guard next

/-- The state after the actions `as`, computed. -/
def exec (step : σ → α → Option σ) : σ → List α → Option σ
  | s, [] => some s
  | s, a :: as => (step s a).bind fun t => exec step t as

/-- A computed sequence of actions is a run. -/
theorem run_of_exec (h : exec step s as = some t) : Run step anyStep s as t := by
  induction as generalizing s with
  | nil => cases h; exact nil _
  | cons a as ih =>
    rw [exec, Option.bind_eq_some_iff] at h
    obtain ⟨m, hm, hrest⟩ := h
    exact trans (single trivial hm) (ih hrest)

/-- The actions `as` are enabled from `s` on and each meets the guard. -/
def Guarded (step : σ → α → Option σ) (ok : σ → α → Prop) : σ → List α → Prop
  | _, [] => True
  | s, a :: as => ok s a ∧ ∃ t, step s a = some t ∧ Guarded step ok t as

/-- A computed sequence of actions that meet the guard is a guarded run. -/
theorem run_of_guarded (h : exec step s as = some t) (hok : Guarded step ok s as) :
    Run step ok s as t := by
  induction as generalizing s with
  | nil => cases h; exact nil _
  | cons a as ih =>
    obtain ⟨hguard, m, hm, hrest⟩ := hok
    rw [exec, hm] at h
    exact trans (single hguard hm) (ih h hrest)

/-- Run a list of actions, checking the guard before each. -/
def checkedExec (step : σ → α → Option σ) (ok : σ → α → Prop) [∀ s a, Decidable (ok s a)] :
    σ → List α → Option σ
  | s, [] => some s
  | s, a :: as => if ok s a then (step s a).bind fun t => checkedExec step ok t as else none

section

variable [∀ s a, Decidable (ok s a)]

/-- A computed run with checked guards is a guarded run. -/
theorem run_of_checkedExec (h : checkedExec step ok s as = some t) : Run step ok s as t := by
  induction as generalizing s with
  | nil => cases h; exact nil _
  | cons a as ih =>
    rw [checkedExec] at h
    split_ifs at h with hguard
    obtain ⟨m, hm, hrest⟩ := Option.bind_eq_some_iff.mp h
    exact trans (single hguard hm) (ih hrest)

/-- A computed run with checked guards that ends well. -/
theorem exists_run_of_checkedExec (h : (checkedExec step ok s as).any P) :
    ∃ t, Run step ok s as t ∧ P t := by
  obtain ⟨t, ht, hP⟩ := (Option.any_eq_true P _).mp h
  exact ⟨t, run_of_checkedExec ht, hP⟩

/-- A computed run, and what follows from how it ends. -/
theorem exists_run_and_of_checkedExec {Q : σ → Prop} (P : σ → Bool)
    (h : (checkedExec step ok s as).any P)
    (hQ : ∀ {t}, Run step ok s as t → P t → Q t) : ∃ t, Run step ok s as t ∧ Q t := by
  obtain ⟨t, hrun, hP⟩ := exists_run_of_checkedExec h
  exact ⟨t, hrun, hQ hrun hP⟩

end

/-- A computed run that ends well. -/
theorem exists_run_of_exec (h : (exec step s as).any P) : ∃ t, Run step anyStep s as t ∧ P t := by
  obtain ⟨t, ht, hP⟩ := (Option.any_eq_true P _).mp h
  exact ⟨t, run_of_exec ht, hP⟩

/-- A computed run, and what follows from how it ends. -/
theorem exists_run_and_of_exec {Q : σ → Prop} (P : σ → Bool) (h : (exec step s as).any P)
    (hQ : ∀ {t}, Run step anyStep s as t → P t → Q t) : ∃ t, Run step anyStep s as t ∧ Q t := by
  obtain ⟨t, hrun, hP⟩ := exists_run_of_exec h
  exact ⟨t, hrun, hQ hrun hP⟩

/-- A computed run whose end has a property that can be decided. -/
theorem exists_run_of_decide {Q : σ → Prop} [DecidablePred Q]
    (h : (exec step s as).any (fun t => decide (Q t))) : ∃ t, Run step anyStep s as t ∧ Q t :=
  exists_run_and_of_exec _ h fun _ => of_decide_eq_true

end Certus
