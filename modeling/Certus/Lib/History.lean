import Mathlib.Data.List.Basic
import Mathlib.Tactic.Linarith

/-! # Histories

A **history** is a list of acts, newest first. A safety property of a system that keeps one says
which acts may follow which past. -/

namespace Certus

open List

universe u

variable {α : Type u} {P : List α → α → Prop}

/-- Every act of a history is allowed by its past. -/
def Throughout (P : List α → α → Prop) : List α → Prop
  | [] => True
  | a :: past => P past a ∧ Throughout P past

/-- An act of the history with its past. -/
theorem Throughout.of_suffix {a : α} {past history : List α} (h : Throughout P history)
    (hsuffix : a :: past <:+ history) : P past a := by
  obtain ⟨later, rfl⟩ := hsuffix
  induction later with
  | nil => exact h.1
  | cons b later ih => exact ih h.2

/-- Acts that every past allows extend a history. -/
theorem Throughout.append {later past : List α} (h : Throughout P past)
    (hlater : ∀ a ∈ later, ∀ past, P past a) : Throughout P (later ++ past) := by
  induction later with
  | nil => exact h
  | cons a later ih =>
    exact ⟨hlater a (mem_cons_self ..) _, ih fun b hb => hlater b (mem_cons_of_mem _ hb)⟩

/-- An act that none of the later ones is stands in the past. -/
theorem split_later {a : α} {past since earlier : List α} (later : List α)
    (h : later ++ past = since ++ a :: earlier) (ha : a ∉ later) :
    ∃ since', since = later ++ since' ∧ past = since' ++ a :: earlier := by
  induction later generalizing since with
  | nil => exact ⟨since, rfl, h⟩
  | cons b later ih =>
    cases since with
    | nil => exact absurd (List.cons.inj h).1.symm fun heq => ha (heq ▸ mem_cons_self ..)
    | cons c since =>
      obtain ⟨rfl, htail⟩ := List.cons.inj h
      obtain ⟨since', rfl, hpast⟩ := ih htail fun hmem => ha (mem_cons_of_mem _ hmem)
      exact ⟨since', rfl, hpast⟩

end Certus
