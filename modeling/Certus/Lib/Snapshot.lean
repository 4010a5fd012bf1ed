import Mathlib.Data.List.Basic
import Mathlib.Tactic.Linarith

/-! # Snapshots taken cell by cell

A list of cells changes while a snapshot of it is taken: the cells are recorded one after the other,
the record then becomes the durable one in a single step, and afterwards the cells are cleared one
after the other. A cell can change between its recording and its clearing; that span is its *window*.

* **`Inv.step`** gives an invariant of the whole list: a relation `R` between a record and its cell
  in the window, and a relation `Q` between the durable record and its cell at all times. -/

namespace Certus.Snapshot

open List Option

variable {σ τ β : Type*}

/-- The operations on one cell: `σ` the cells, `τ` what is recorded of them, `β` the operations. -/
structure Protocol (σ τ β : Type*) where
  op : β → σ → Option σ
  /-- What is recorded. -/
  snap : σ → τ
  /-- The clearing after the record became durable. -/
  clear : σ → σ
  /-- The cell rebuilt from the durable record. -/
  rebuild : τ → σ

/-- How far the snapshot is. -/
inductive Phase (τ : Type*)
  | idle
  /-- The first cells are recorded. -/
  | taking (taken : List τ)
  /-- The record is durable and the first cells are cleared. -/
  | clearing (cleared : ℕ)

/-- The cells, the running snapshot and the durable record. -/
structure State (σ τ : Type*) where
  cells : List σ
  phase : Phase τ
  durable : List τ

/-- Cell `j` is recorded and not yet cleared. -/
def Phase.InWindow (j : ℕ) : Phase τ → Prop
  | .idle => False
  | .taking taken => j < taken.length
  | .clearing cleared => cleared ≤ j

/-- The record of the running snapshot. -/
def State.record (s : State σ τ) : List τ :=
  match s.phase with
  | .idle => []
  | .taking taken => taken
  | .clearing _ => s.durable

/-- One step. A snapshot can be given up at any time, and the cells can be rebuilt from the durable
record at any time. -/
inductive Step (P : Protocol σ τ β) (quiet : β → σ → Prop) : State σ τ → State σ τ → Prop
  | op {s : State σ τ} {j : ℕ} {x y : σ} {b : β} (hx : s.cells[j]? = some x)
      (hop : P.op b x = some y) (hquiet : s.phase.InWindow j → quiet b x) :
      Step P quiet s { s with cells := s.cells.set j y }
  | start {s : State σ τ} : Step P quiet s { s with phase := .taking [] }
  | take {s : State σ τ} {taken : List τ} {x : σ} (hphase : s.phase = .taking taken)
      (hx : s.cells[taken.length]? = some x) :
      Step P quiet s { s with phase := .taking (taken ++ [P.snap x]) }
  | giveUp {s : State σ τ} : Step P quiet s { s with phase := .idle }
  | commit {s : State σ τ} {taken : List τ} (hphase : s.phase = .taking taken)
      (hall : taken.length = s.cells.length) :
      Step P quiet s { s with phase := .clearing 0, durable := taken }
  | clear {s : State σ τ} {k : ℕ} {x : σ} (hphase : s.phase = .clearing k)
      (hx : s.cells[k]? = some x) :
      Step P quiet s { s with cells := s.cells.set k (P.clear x), phase := .clearing (k + 1) }
  | restart {s : State σ τ} :
      Step P quiet s { s with cells := s.durable.map P.rebuild, phase := .idle }

/-- Conditions on single cells: `I` is kept by the cells and `J` by the records, `R` relates a
record to its cell in the window, `Q` the durable record to its cell. -/
structure Laws (P : Protocol σ τ β) (quiet : β → σ → Prop) (I : ℕ → σ → Prop) (J : ℕ → τ → Prop)
    (R Q : τ → σ → Prop) : Prop where
  op_keeps : ∀ {j b x y}, I j x → P.op b x = some y → I j y
  clear_keeps : ∀ {j x}, I j x → I j (P.clear x)
  snap_keeps : ∀ {j x}, I j x → J j (P.snap x)
  rebuild_keeps : ∀ {j d}, J j d → I j (P.rebuild d)
  record_snap : ∀ {j x}, I j x → R (P.snap x) x
  record_op : ∀ {j b d x y}, I j x → R d x → P.op b x = some y → quiet b x → R d y
  durable_op : ∀ {j b d x y}, I j x → Q d x → P.op b x = some y → Q d y
  durable_record : ∀ {j d x}, I j x → R d x → Q d x
  durable_clear : ∀ {j d x}, I j x → R d x → Q d (P.clear x)
  durable_rebuild : ∀ {j d}, J j d → Q d (P.rebuild d)

/-- The invariant of the whole list. -/
structure Inv (I : ℕ → σ → Prop) (J : ℕ → τ → Prop) (R Q : τ → σ → Prop) (s : State σ τ) :
    Prop where
  length_eq : s.durable.length = s.cells.length
  record_le : s.record.length ≤ s.cells.length
  cell : ∀ (j : ℕ) x, s.cells[j]? = some x → I j x
  durable : ∀ (j : ℕ) d, s.durable[j]? = some d → J j d
  record : ∀ (j : ℕ) d, s.record[j]? = some d → J j d
  kept : ∀ (j : ℕ) d x, s.durable[j]? = some d → s.cells[j]? = some x → Q d x
  window : ∀ (j : ℕ) d x, s.phase.InWindow j → s.record[j]? = some d → s.cells[j]? = some x → R d x

variable {P : Protocol σ τ β} {quiet : β → σ → Prop} {I : ℕ → σ → Prop} {J : ℕ → τ → Prop}
  {R Q : τ → σ → Prop}

/-- The entry of a list with one place replaced. -/
theorem getElem?_set_cases {α : Type*} {l : List α} {k j : ℕ} {y x : α}
    (h : (l.set k y)[j]? = some x) : (j = k ∧ x = y) ∨ (j ≠ k ∧ l[j]? = some x) := by
  rw [getElem?_set] at h
  split at h
  · rename_i hkj
    split_ifs at h
    exact .inl ⟨hkj.symm, (some.inj h).symm⟩
  · rename_i hkj
    exact .inr ⟨Ne.symm hkj, h⟩

/-- Every entry of a list with one entry appended. -/
theorem getElem?_append_cases {α : Type*} {l : List α} {j : ℕ} {y x : α}
    (h : (l ++ [y])[j]? = some x) : (j = l.length ∧ x = y) ∨ l[j]? = some x := by
  rcases Nat.lt_trichotomy j l.length with hj | hj | hj
  · rw [getElem?_append_left hj] at h
    exact .inr h
  · subst hj
    rw [getElem?_append_right (le_refl _), Nat.sub_self] at h
    exact .inl ⟨rfl, (some.inj h).symm⟩
  · rw [getElem?_eq_none (by simp; omega)] at h
    cases h

namespace Inv

variable {s t : State σ τ}

section

variable (hs : Inv I J R Q s)
include hs

/-- Without a running snapshot nothing is said about a window. -/
theorem idle : Inv I J R Q { s with phase := .idle } where
  length_eq := hs.length_eq
  record_le := Nat.zero_le _
  cell := hs.cell
  durable := hs.durable
  record := fun j d hd => by cases hd
  kept := hs.kept
  window := fun j d x hw => hw.elim

/-- Cell `k` changes to a cell with `I`, `Q` and, in the window, `R`. -/
theorem set_cell {k : ℕ} {y : σ} (hI : I k y) (hQ : ∀ d, s.durable[k]? = some d → Q d y)
    (hR : ∀ d, s.phase.InWindow k → s.record[k]? = some d → R d y) :
    Inv I J R Q { s with cells := s.cells.set k y } where
  length_eq := hs.length_eq.trans (length_set ..).symm
  record_le := hs.record_le.trans (le_of_eq (length_set ..).symm)
  cell := fun j x hx => by
    rcases getElem?_set_cases hx with ⟨rfl, rfl⟩ | ⟨-, hx⟩
    · exact hI
    · exact hs.cell j x hx
  durable := hs.durable
  record := hs.record
  kept := fun j d x hd hx => by
    rcases getElem?_set_cases hx with ⟨rfl, rfl⟩ | ⟨-, hx⟩
    · exact hQ d hd
    · exact hs.kept j d x hd hx
  window := fun j d x hw hd hx => by
    rcases getElem?_set_cases hx with ⟨rfl, rfl⟩ | ⟨-, hx⟩
    · exact hR d hw hd
    · exact hs.window j d x hw hd hx

variable (hP : Laws P quiet I J R Q)
include hP

/-- The next cell is recorded. -/
theorem take {taken : List τ} {x : σ}
    (hphase : s.phase = .taking taken) (hx : s.cells[taken.length]? = some x) :
    Inv I J R Q { s with phase := .taking (taken ++ [P.snap x]) } := by
  have hrec : s.record = taken := by rw [State.record, hphase]
  have hI := hs.cell _ x hx
  refine ⟨hs.length_eq, ?_, hs.cell, hs.durable, fun j d hd => ?_, hs.kept, fun j d y hw hd hy => ?_⟩
  · have hlt := (List.getElem?_eq_some_iff.mp hx).1
    simp only [State.record, length_append, length_singleton]
    omega
  · rcases getElem?_append_cases hd with ⟨rfl, rfl⟩ | hd
    · exact hP.snap_keeps hI
    · exact hs.record j d (by rw [hrec]; exact hd)
  · rcases getElem?_append_cases hd with ⟨rfl, rfl⟩ | hd
    · rw [hx] at hy
      cases hy
      exact hP.record_snap hI
    · refine hs.window j d y ?_ (by rw [hrec]; exact hd) hy
      rw [hphase]
      exact (List.getElem?_eq_some_iff.mp hd).1

/-- The record becomes the durable one. -/
theorem commit {taken : List τ}
    (hphase : s.phase = .taking taken) (hall : taken.length = s.cells.length) :
    Inv I J R Q { s with phase := .clearing 0, durable := taken } := by
  have hrec : s.record = taken := by rw [State.record, hphase]
  -- every cell is in its window now
  have hR : ∀ (j : ℕ) d x, taken[j]? = some d → s.cells[j]? = some x → R d x := by
    intro j d x hd hx
    refine hs.window j d x ?_ (by rw [hrec]; exact hd) hx
    rw [hphase]
    exact (List.getElem?_eq_some_iff.mp hd).1
  have hJ : ∀ (j : ℕ) d, taken[j]? = some d → J j d := fun j d hd => hs.record j d (by rw [hrec]; exact hd)
  exact ⟨hall, le_of_eq hall, hs.cell, hJ, hJ,
    fun j d x hd hx => hP.durable_record (hs.cell j x hx) (hR j d x hd hx),
    fun j d x _ hd hx => hR j d x hd hx⟩

/-- The next cell is cleared. -/
theorem clear {k : ℕ} {x : σ} (hphase : s.phase = .clearing k) (hx : s.cells[k]? = some x) :
    Inv I J R Q { s with cells := s.cells.set k (P.clear x), phase := .clearing (k + 1) } := by
  have hrec : s.record = s.durable := by rw [State.record, hphase]
  have hI := hs.cell k x hx
  have hR : ∀ j d y, k ≤ j → s.durable[j]? = some d → s.cells[j]? = some y → R d y := by
    intro j d y hj hd hy
    refine hs.window j d y ?_ (by rw [hrec]; exact hd) hy
    rw [hphase]
    exact hj
  -- the window of cell `k` is closed, the others stay open
  have hopen : Inv I J R Q { s with phase := .clearing (k + 1) } :=
    ⟨hs.length_eq, le_of_eq hs.length_eq, hs.cell, hs.durable, hs.durable, hs.kept,
      fun j d y hj hd hy => hR j d y (Nat.le_of_succ_le hj) hd hy⟩
  refine hopen.set_cell (hP.clear_keeps hI) (fun d hd => ?_) fun d hw => ?_
  · exact hP.durable_clear hI (hR k d x (le_refl k) hd hx)
  · exact absurd hw (Nat.not_succ_le_self k)

/-- The cells are rebuilt from the durable record. -/
theorem restart : Inv I J R Q { s with cells := s.durable.map P.rebuild, phase := .idle } := by
  refine ⟨(length_map ..).symm, Nat.zero_le _, fun j x hx => ?_, hs.durable,
    (fun j d hd => by cases hd), fun j d x hd hx => ?_, fun j d x hw => hw.elim⟩
  · rw [getElem?_map] at hx
    obtain ⟨d, hd, rfl⟩ := map_eq_some_iff.mp hx
    exact hP.rebuild_keeps (hs.durable j d hd)
  · rw [getElem?_map, hd] at hx
    cases hx
    exact hP.durable_rebuild (hs.durable j d hd)

end

/-- **The invariant is kept.** -/
theorem step (hP : Laws P quiet I J R Q) (hs : Inv I J R Q s) (h : Step P quiet s t) :
    Inv I J R Q t := by
  cases h with
  | @op j x y b hx hop hquiet =>
    have hI := hs.cell j x hx
    refine hs.set_cell (hP.op_keeps hI hop) (fun d hd => ?_) fun d hw hd => ?_
    · exact hP.durable_op hI (hs.kept j d x hd hx) hop
    · exact hP.record_op hI (hs.window j d x hw hd hx) hop (hquiet hw)
  | start =>
    exact ⟨hs.length_eq, Nat.zero_le _, hs.cell, hs.durable, (fun j d hd => by cases hd), hs.kept,
      fun j d x hw => absurd hw (Nat.not_lt_zero j)⟩
  | take hphase hx => exact hs.take hP hphase hx
  | giveUp => exact hs.idle
  | commit hphase hall => exact hs.commit hP hphase hall
  | clear hphase hx => exact hs.clear hP hphase hx
  | restart => exact hs.restart hP

end Inv

end Certus.Snapshot
