import Mathlib.Data.List.Basic
import Mathlib.Tactic.Linarith

/-! # Message cells

A cell of shared memory for one message: a sequence number, a word, a length and a buffer. A message is
stored field by field, the sequence number last, and loaded field by field.

* **`store`**, **`WriteStage`** — one store of a writer, and which one is next.
* **`load`**, **`ReadStage`** — one load of a reader, and what it has loaded so far. -/

namespace Certus

/-- A message. -/
structure Message where
  word : UInt32
  data : List UInt8
  deriving DecidableEq, Repr

/-- A cell of shared memory. -/
structure MessageCell where
  seq : UInt32
  word : UInt32
  len : UInt32
  payload : List UInt8
  deriving DecidableEq, Repr

/-- The store that is next. -/
inductive WriteStage where
  | payload
  | word
  | len
  | seq
  deriving DecidableEq, Repr

/-- The stores in program order. -/
def WriteStage.next : WriteStage → Option WriteStage
  | .payload => some .word
  | .word => some .len
  | .len => some .seq
  | .seq => none

/-- What is loaded next, with what was loaded before. -/
inductive ReadStage where
  | word
  | len (word : UInt32)
  | payload (word : UInt32) (len : ℕ)
  deriving DecidableEq, Repr

namespace MessageCell

variable {c : MessageCell} {m : Message} {cap : UInt32}

/-- An empty cell with a buffer of `cap` bytes. -/
def empty (cap : UInt32) : MessageCell := ⟨0, 0, 0, List.replicate cap.toNat 0⟩

/-- One store of a message. -/
def store (c : MessageCell) (m : Message) (seq : UInt32) : WriteStage → MessageCell
  | .payload => { c with payload := m.data ++ c.payload.drop m.data.length }
  | .word => { c with word := m.word }
  | .len => { c with len := .ofNat m.data.length }
  | .seq => { c with seq }

/-- One load; the length is cut to the size of the buffer. -/
def load (c : MessageCell) (cap : UInt32) : ReadStage → ReadStage ⊕ Message
  | .word => .inl (.len c.word)
  | .len word => .inl (.payload word (min c.len cap).toNat)
  | .payload word len => .inr ⟨word, c.payload.take len⟩

/-- The stores before a stage are done. -/
def Written (c : MessageCell) (m : Message) : WriteStage → Prop
  | .payload => True
  | .word => c.payload.take m.data.length = m.data
  | .len => c.payload.take m.data.length = m.data ∧ c.word = m.word
  | .seq => c.payload.take m.data.length = m.data ∧ c.word = m.word ∧ c.len = .ofNat m.data.length

/-- The cell holds a message. -/
def Holds (c : MessageCell) (m : Message) : Prop := c.Written m .seq

/-- What was loaded is of the message. -/
def Reading (m : Message) : ReadStage → Prop
  | .word => True
  | .len word => word = m.word
  | .payload word len => word = m.word ∧ len = m.data.length

/-- Only the last store changes the sequence number. -/
theorem seq_store {stage stage' : WriteStage} (h : stage.next = some stage') (seq : UInt32) :
    (c.store m seq stage).seq = c.seq := by
  cases stage with
  | seq => exact nomatch h
  | _ => rfl

/-- A store brings the writer to the next stage. -/
theorem Written.store {stage stage' : WriteStage} (h : c.Written m stage)
    (hnext : stage.next = some stage') (seq : UInt32) : (c.store m seq stage).Written m stage' := by
  cases stage with
  | payload =>
    cases hnext
    exact List.take_left
  | word =>
    cases hnext
    exact ⟨h, rfl⟩
  | len =>
    cases hnext
    exact ⟨h.1, h.2, rfl⟩
  | seq => exact nomatch hnext

/-- After the last store the cell holds the message under its number. -/
theorem Written.holds {stage : WriteStage} (h : c.Written m stage) (hnext : stage.next = none)
    (seq : UInt32) : (c.store m seq stage).Holds m ∧ (c.store m seq stage).seq = seq := by
  cases stage with
  | seq => exact ⟨h, rfl⟩
  | _ => exact nomatch hnext

/-- **A reader gets the message that the cell holds.** -/
theorem Reading.load {stage : ReadStage} (h : Reading m stage) (hc : c.Holds m)
    (hcap : m.data.length ≤ cap.toNat) :
    (∃ stage', c.load cap stage = .inl stage' ∧ Reading m stage') ∨ c.load cap stage = .inr m := by
  obtain ⟨hpayload, hword, hlen⟩ := hc
  cases stage with
  | word => exact .inl ⟨_, rfl, hword⟩
  | len word =>
    refine .inl ⟨_, rfl, h, ?_⟩
    have hlength : (UInt32.ofNat m.data.length).toNat = m.data.length :=
      UInt32.toNat_ofNat_of_lt' (Nat.lt_of_le_of_lt hcap cap.toNat_lt)
    have hle : UInt32.ofNat m.data.length ≤ cap := UInt32.le_iff_toNat_le.mpr (by omega)
    have hmin : min (UInt32.ofNat m.data.length) cap = UInt32.ofNat m.data.length := if_pos hle
    rw [hlen, hmin, hlength]
  | payload word len =>
    obtain ⟨rfl, rfl⟩ := h
    refine .inr ?_
    rw [MessageCell.load, hpayload]

end MessageCell

end Certus
