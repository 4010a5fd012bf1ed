import Mathlib.Algebra.Order.BigOperators.Group.Finset
import Mathlib.Tactic.Linarith
import Certus.Interfaces
import Certus.Lib.Run

/-! # Pins by channel

A client pins keys through its channel. The translator takes the pins from the dispatcher, where
they are anonymous read references, and records for each channel which it has. The two are updated
one after the other, while the requests of other channels go on.

* **`Channel`**, **`Channel.advance`** — the record of a channel and what is left of its request.
* **`Balanced`**, **`advance_balanced`** — a pin held for a channel is recorded there, or in the
  hands of its request.
* **`pins_recorded`** — the references of the dispatcher are the pins of all channels. -/

namespace Certus.ShmqDispatcher

open List
open Function (update)

/-- What is left of a request. -/
inductive Task
  | pin (keys : List CacheKey)
  /-- The key is pinned, and is to be recorded. -/
  | record (key : CacheKey) (keys : List CacheKey)
  | unpin (keys : List CacheKey)
  /-- The key is off the record, and is to be unpinned. -/
  | release (key : CacheKey) (keys : List CacheKey)
  | unpinAll
  /-- The keys are off the record, and are to be unpinned. -/
  | releaseAll (keys : List CacheKey)

/-- The pins in the hands of a request. -/
def Task.owed : Task → List CacheKey
  | .record key _ | .release key _ => [key]
  | .releaseAll keys => keys
  | _ => []

/-- The requests; those with keys pass `check_duplicate_keys`. -/
def Task.Request : Task → Prop
  | .pin keys | .unpin keys => keys.Nodup
  | .unpinAll => True
  | _ => False

/-- One more, or one less, for a key. -/
def more (f : CacheKey → ℕ) (key : CacheKey) : CacheKey → ℕ := update f key (f key + 1)

@[inherit_doc more]
def less (f : CacheKey → ℕ) (key : CacheKey) : CacheKey → ℕ := update f key (f key - 1)

theorem more_apply (f : CacheKey → ℕ) (key k : CacheKey) : more f key k = f k + [key].count k := by
  by_cases h : k = key
  · subst h
    simp [more]
  · simp [more, h, Ne.symm h]

theorem less_apply {f : CacheKey → ℕ} {key : CacheKey} (h : f key ≠ 0) (k : CacheKey) :
    f k = less f key k + [key].count k := by
  by_cases hk : k = key
  · subst hk
    simp [less]
    omega
  · simp [less, hk, Ne.symm hk]

/-- The pins recorded for a channel, its request in progress, and the pins it has taken from the
dispatcher and not released. -/
structure Channel where
  recorded : CacheKey → ℕ := 0
  task : Option Task := none
  held : CacheKey → ℕ := 0

namespace Channel

variable (c : Channel) (refs : CacheKey → ℕ)

/-- The request goes on. -/
def goOn (t : Task) : Channel := { c with task := some t }

/-- The pins in the hands of the request. -/
def owed : List CacheKey := c.task.elim [] Task.owed

/-- `dispatcher.unpin`: an error if there is no reference. -/
def unpin (key : CacheKey) : Channel × (CacheKey → ℕ) :=
  if refs key = 0 then (c, refs) else ({ c with held := less c.held key }, less refs key)

/-- The next step of the request, with the references of the dispatcher. `pinned` is its answer to a
pin; `keys` is what `take_all` finds, in any order. -/
def advance (pinned : Bool) (keys : List CacheKey) : Task → Option (Channel × (CacheKey → ℕ))
  | .pin [] | .unpin [] | .releaseAll [] => some ({ c with task := none }, refs)
  | .pin (key :: rest) =>
    if pinned then some ({ c with held := more c.held key }.goOn (.record key rest), more refs key)
    else some (c.goOn (.pin rest), refs)
  | .record key rest => some ({ c with recorded := more c.recorded key }.goOn (.pin rest), refs)
  | .unpin (key :: rest) =>
    if c.recorded key = 0 then some (c.goOn (.unpin rest), refs)
    else some ({ c with recorded := less c.recorded key }.goOn (.release key rest), refs)
  | .release key rest =>
    some ((c.unpin refs key).1.goOn (.unpin rest), (c.unpin refs key).2)
  | .unpinAll => some ({ c with recorded := 0 }.goOn (.releaseAll keys), refs)
  | .releaseAll (key :: rest) =>
    some ((c.unpin refs key).1.goOn (.releaseAll rest), (c.unpin refs key).2)

/-- Each pin that is held is recorded or in the hands of the request, and nothing is recorded while
all pins are released. -/
structure Balanced (c : Channel) : Prop where
  held : ∀ k, c.held k = c.recorded k + c.owed.count k
  cleared : ∀ keys, c.task = some (.releaseAll keys) → c.recorded = 0

variable {c c' : Channel} {refs refs' : CacheKey → ℕ} {key : CacheKey} {t : Task}

/-- The request goes on with other pins in its hands. -/
theorem Balanced.goOn (hheld : ∀ k, c.held k = c.recorded k + t.owed.count k)
    (hcleared : ∀ keys, t = .releaseAll keys → c.recorded = 0) : Balanced (c.goOn t) :=
  ⟨hheld, fun keys hkeys => hcleared keys (Option.some.inj hkeys)⟩

/-- A pin in the hands of a request is released. -/
theorem Balanced.unpin {t' : Task} (h : Balanced c) (ht : c.task = some t)
    (howed : t.owed = key :: t'.owed) (hrefs : ∀ k, c.held k ≤ refs k)
    (hcleared : ∀ keys, t' = .releaseAll keys → c.recorded = 0) :
    Balanced ((c.unpin refs key).1.goOn t') ∧
      ∀ k, (c.unpin refs key).2 k + c.held k = refs k + (c.unpin refs key).1.held k := by
  have hheld := h.held
  rw [owed, ht, Option.elim_some, howed, ← singleton_append] at hheld
  simp only [count_append] at hheld
  have hpos : c.held key ≠ 0 := by
    rw [hheld, count_singleton_self]
    omega
  have hrefs₀ : refs key ≠ 0 := (Nat.pos_of_ne_zero hpos).trans_le (hrefs key) |>.ne'
  rw [Channel.unpin, if_neg hrefs₀]
  refine ⟨.goOn (fun k => ?_) hcleared, fun k => ?_⟩
  · have hless := less_apply hpos k
    have hold := hheld k
    dsimp only
    omega
  · have hless := less_apply hpos k
    have hless' := less_apply hrefs₀ k
    dsimp only
    omega

/-- **A step of a request.** The pins that are held stay balanced, and the dispatcher's references
follow them. -/
theorem advance_balanced {pinned : Bool} {keys : List CacheKey} (h : Balanced c)
    (ht : c.task = some t) (hrefs : ∀ k, c.held k ≤ refs k)
    (hkeys : c.task = some .unpinAll → ∀ k, keys.count k = c.recorded k)
    (hstep : c.advance refs pinned keys t = some (c', refs')) :
    Balanced c' ∧ ∀ k, refs' k + c.held k = refs k + c'.held k := by
  have hheld := h.held
  rw [owed, ht, Option.elim_some] at hheld
  have hfinish : t.owed = [] → Balanced { c with task := none } := fun hnone =>
    ⟨fun k => by simpa [owed, hnone] using hheld k, nofun⟩
  rw [advance.eq_def] at hstep
  split at hstep
  -- nothing is left of the request
  · cases hstep
    exact ⟨hfinish rfl, fun k => rfl⟩
  · cases hstep
    exact ⟨hfinish rfl, fun k => rfl⟩
  · cases hstep
    exact ⟨hfinish rfl, fun k => rfl⟩
  -- PIN: the dispatcher pins the key, or refuses
  · rename_i key rest
    split_ifs at hstep <;> cases hstep
    · refine ⟨.goOn (fun k => ?_) nofun, fun k => ?_⟩
      · show more c.held key k = c.recorded k + [key].count k
        rw [more_apply, hheld]
        rfl
      · simp only [Channel.goOn, more_apply]
        omega
    · exact ⟨.goOn hheld nofun, fun k => rfl⟩
  -- the pin goes on the record
  · rename_i key rest
    cases hstep
    refine ⟨.goOn (fun k => ?_) nofun, fun k => rfl⟩
    show c.held k = more c.recorded key k + 0
    rw [more_apply]
    exact hheld k
  -- UNPIN: the key is taken off the record, if it is on it
  · rename_i key rest
    split_ifs at hstep with hrecorded <;> cases hstep
    · exact ⟨.goOn hheld nofun, fun k => rfl⟩
    · refine ⟨.goOn (fun k => ?_) nofun, fun k => rfl⟩
      rw [hheld, less_apply hrecorded]
      rfl
  · cases hstep
    exact h.unpin ht rfl hrefs nofun
  -- UNPIN-all: the whole record passes to the request
  · cases hstep
    refine ⟨.goOn (fun k => ?_) fun _ _ => rfl, fun k => rfl⟩
    rw [hheld, ← hkeys ht]
    exact Nat.add_comm ..
  · cases hstep
    exact h.unpin ht rfl hrefs fun _ _ => h.cleared _ ht

end Channel

/-- The channels, and the dispatcher's read references for each key. -/
structure Pins (C : Type) where
  refs : CacheKey → ℕ
  channels : C → Channel := fun _ => {}

namespace Pins

variable {C : Type} [Fintype C] [DecidableEq C] (w : Pins C)

/-- What can happen next: a request comes, or a request goes on. -/
inductive Event (C : Type)
  | request (ch : C) (t : Task)
  | advance (ch : C) (pinned : Bool) (keys : List CacheKey)

/-- One step. A channel has one request at a time. -/
def step : Event C → Option (Pins C)
  | .request ch t =>
    if (w.channels ch).task.isSome then none
    else some { w with channels := update w.channels ch ((w.channels ch).goOn t) }
  | .advance ch pinned keys =>
    (w.channels ch).task.bind fun t =>
      ((w.channels ch).advance w.refs pinned keys t).map fun r =>
        ⟨r.2, update w.channels ch r.1⟩

/-- What comes is a request, and `take_all` finds what is recorded. -/
def Genuine (w : Pins C) : Event C → Prop
  | .request _ t => t.Request
  | .advance ch _ keys => (w.channels ch).task = some .unpinAll →
    ∀ k, keys.count k = (w.channels ch).recorded k

/-- The pins of all channels, taken from the dispatcher and not released. -/
def held (key : CacheKey) : ℕ := ∑ ch, (w.channels ch).held key

/-- Every channel is balanced, and its pins are references of the dispatcher, which had `before`. -/
structure Sound (before : CacheKey → ℕ) (w : Pins C) : Prop where
  balanced : ∀ ch, (w.channels ch).Balanced
  refs : ∀ key, w.refs key = before key + w.held key

variable {w w' : Pins C} {before : CacheKey → ℕ}

/-- **A step** of any channel. -/
theorem Sound.step {e : Event C} (h : Sound before w) (hok : Genuine w e)
    (hstep : w.step e = some w') : Sound before w' := by
  have hput : ∀ ch c', c'.Balanced → ∀ ch', (update w.channels ch c' ch').Balanced := by
    intro ch c' hc ch'
    by_cases hch : ch' = ch
    · subst hch
      simpa using hc
    · simpa [hch] using h.balanced ch'
  -- a sum over the channels changes by what one of them changes
  have hsum : ∀ ch c' key, ∑ i, (update w.channels ch c' i).held key + (w.channels ch).held key
      = w.held key + c'.held key := by
    intro ch c' key
    have hrest : ∑ i ∈ Finset.univ.erase ch, (update w.channels ch c' i).held key
        = ∑ i ∈ Finset.univ.erase ch, (w.channels i).held key :=
      Finset.sum_congr rfl fun i hi => by rw [Function.update_of_ne (Finset.ne_of_mem_erase hi)]
    have hold := Finset.add_sum_erase Finset.univ (fun i => (w.channels i).held key)
      (Finset.mem_univ ch)
    rw [held, ← hold, ← Finset.add_sum_erase _ _ (Finset.mem_univ ch), Function.update_self, hrest]
    omega
  cases e with
  | request ch t =>
    rw [Pins.step] at hstep
    split_ifs at hstep with hidle
    cases hstep
    have howed : t.owed = [] := by cases t <;> first | rfl | exact hok.elim
    have hbalanced := (h.balanced ch).held
    rw [Channel.owed, Option.not_isSome_iff_eq_none.mp hidle] at hbalanced
    refine ⟨hput ch _ (.goOn (by rwa [howed]) ?_), fun key => ?_⟩
    · rintro keys rfl
      exact hok.elim
    · have htotal := hsum ch ((w.channels ch).goOn t) key
      exact (h.refs key).trans (congrArg _ (Nat.add_right_cancel htotal).symm)
  | advance ch pinned keys =>
    obtain ⟨t, ht, hstep⟩ := Option.bind_eq_some_iff.mp hstep
    obtain ⟨⟨c', refs'⟩, hadvance, rfl⟩ := Option.map_eq_some_iff.mp hstep
    have hle : ∀ k, (w.channels ch).held k ≤ w.refs k := fun k => by
      rw [h.refs]
      exact (Finset.single_le_sum (f := fun ch => (w.channels ch).held k) (fun _ _ => Nat.zero_le _)
        (Finset.mem_univ ch)).trans (Nat.le_add_left ..)
    obtain ⟨hc, hfollow⟩ := Channel.advance_balanced (h.balanced ch) ht hle hok hadvance
    refine ⟨hput ch c' hc, fun key => ?_⟩
    have hrefs := h.refs key
    have hnew := hfollow key
    have htotal := hsum ch c' key
    dsimp only [Pins.held] at hrefs htotal ⊢
    omega

/-- **Pins and their record.** In every interleaving of the requests of any channels, a reference of
the dispatcher that was not there before is a pin of a channel. When no request is in progress, for
each key the pins are as many as the channels have recorded. A request releases only pins of its own
channel, and when UNPIN-all has released them, the channel has none recorded and none held. -/
theorem pins_recorded {es : List (Event C)} (hrun : Run step Genuine ⟨before, fun _ => {}⟩ es w) :
    (∀ key, w.refs key = before key + w.held key) ∧
    ((∀ ch, (w.channels ch).task = none) → ∀ key, w.held key = ∑ ch, (w.channels ch).recorded key) ∧
    (∀ ch key, key ∈ (w.channels ch).owed → 0 < (w.channels ch).held key) ∧
    ∀ ch key, (w.channels ch).task = some (.releaseAll []) →
      (w.channels ch).recorded key = 0 ∧ (w.channels ch).held key = 0 := by
  have hstart : Sound before (⟨before, fun _ => {}⟩ : Pins C) :=
    ⟨fun _ => ⟨fun _ => rfl, nofun⟩, fun key => by simp [held]⟩
  have h := hrun.invariant hstart fun _ _ _ h hok hstep => h.step hok hstep
  have hheld := fun ch => (h.balanced ch).held
  refine ⟨h.refs, fun hidle key => ?_, fun ch key hkey => ?_, fun ch key hdone => ?_⟩
  · refine Finset.sum_congr rfl fun ch _ => ?_
    rw [hheld, Channel.owed, hidle]
    rfl
  · rw [hheld]
    exact Nat.add_pos_right _ (count_pos_iff.mpr hkey)
  · have hnone := congrFun ((h.balanced ch).cleared [] hdone) key
    rw [hheld, Channel.owed, hdone, hnone]
    exact ⟨rfl, rfl⟩

/-- A request, or a step of one other than `take_all`. -/
def isPlain (w : Pins C) : Event C → Bool
  | .request _ (.pin keys) | .request _ (.unpin keys) => decide keys.Nodup
  | .request _ .unpinAll => true
  | .advance ch _ _ => match (w.channels ch).task with
    | some .unpinAll => false
    | _ => true
  | _ => false

omit [Fintype C] [DecidableEq C] in
theorem genuine_of_isPlain (w : Pins C) (e : Event C) (h : w.isPlain e) : w.Genuine e := by
  cases e with
  | request ch t => cases t <;> simp_all [isPlain, Genuine, Task.Request]
  | advance ch pinned keys =>
    intro htask
    rw [isPlain, htask] at h
    cases h

/-- A channel pins a key. -/
def pinSeven : List (Event Bool) :=
  [.request true (.pin [7]), .advance true true [], .advance true true [], .advance true true []]

/-- A channel pins a key while another tries to unpin it, unpins it, and pins it again. -/
def twoChannels : List (Event Bool) :=
  [.request true (.pin [7]), .advance true true [], .request false (.unpin [7]),
    .advance false true [], .advance true true [], .advance false true [], .advance true true [],
    .request true (.unpin [7]), .advance true true [], .advance true true [],
    .advance true true []] ++ pinSeven

/-- The foreign UNPIN leaves the pin alone, the own one gives it back, and so does UNPIN-all. -/
theorem pins_recorded_two_channels :
    (∃ w : Pins Bool, Run step Genuine ⟨fun _ => 1, fun _ => {}⟩ twoChannels w ∧
      w.refs 7 = 2 ∧ w.held 7 = ∑ ch, (w.channels ch).recorded 7) ∧
    ∃ w : Pins Bool, Run step Genuine ⟨fun _ => 1, fun _ => {}⟩
      (pinSeven ++ [.request true .unpinAll] ++ [.advance true true [7]] ++ [.advance true true []]) w ∧
      (w.channels true).recorded 7 = 0 ∧ (w.channels true).held 7 = 0 := by
  constructor
  · obtain ⟨w, hrun, hw⟩ := exists_run_of_checkedExec (show (checkedExec step
      (fun w e => isPlain w e = true) (⟨fun _ => 1, fun _ => {}⟩ : Pins Bool) twoChannels).any
      (fun w => decide (w.refs 7 = 2) && ((w.channels true).task.isNone &&
        (w.channels false).task.isNone)) by decide +kernel)
    simp only [Bool.and_eq_true, decide_eq_true_eq, Option.isNone_iff_eq_none] at hw
    refine ⟨w, hrun.mono genuine_of_isPlain, hw.1, ?_⟩
    exact (pins_recorded (hrun.mono genuine_of_isPlain)).2.1 (Bool.forall_bool.mpr hw.2.symm) 7
  · obtain ⟨w, hw⟩ : ∃ w, checkedExec step (fun w e => isPlain w e = true)
        (⟨fun _ => 1, fun _ => {}⟩ : Pins Bool) pinSeven = some w := ⟨_, rfl⟩
    have hrun := (run_of_checkedExec hw).mono genuine_of_isPlain
    have htask : (w.channels true).task.isSome = false := by cases hw; rfl
    have hrecorded : ∀ k, (w.channels true).recorded k = [7].count k := fun k => by
      cases hw
      exact (more_apply 0 7 k).trans (Nat.zero_add _)
    have hnext : w.step (.request true .unpinAll) = some { w with
        channels := update w.channels true ((w.channels true).goOn .unpinAll) } :=
      if_neg (by rw [htask]; decide)
    have hasked := hrun.snoc (genuine_of_isPlain _ _ rfl) hnext
    have htaken := hasked.snoc
      (show Genuine _ (.advance true true [7]) from fun _ k => (hrecorded k).symm) rfl
    have hall := htaken.snoc (a := .advance true true []) (genuine_of_isPlain _ _ rfl) rfl
    exact ⟨_, hall, (pins_recorded hall).2.2.2 true 7 rfl⟩

end Pins

end Certus.ShmqDispatcher
