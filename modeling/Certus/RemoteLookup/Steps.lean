import Certus.RemoteLookup.Actor

/-! # What the handlers do, step by step

The properties of the actor are about the log, the progress of keys and the slots. Everything the
handlers do to these goes through a few steps; this module says what each step does and reduces the
handlers that only fetch and finish to them.

* **`World.live`, `World.sizeOf`, `World.tracks`** — an operation and its keys, as `stateOf` and
  `slotOf` read them. -/

namespace Certus.RemoteLookup

open List Option OrdMap World Operation Prod

namespace World

variable {env : Env} {w w' : World} {o o' : OpId} {key key' : CacheKey} {s : KeyState}

/-- The operation is in the table. -/
def live (w : World) (o : OpId) : Prop := (w.ops.get? o).isSome

instance (w : World) (o : OpId) : Decidable (w.live o) := inferInstanceAs (Decidable (_ = true))

/-- The size an operation asks for. -/
def sizeOf (w : World) (o : OpId) (key : CacheKey) : Option UInt32 :=
  (w.ops.get? o).bind fun op => op.sizeOf key

/-- The operation keeps a state for the key. -/
def tracks (w : World) (o : OpId) (key : CacheKey) : Prop :=
  ((w.ops.get? o).bind fun op => op.state.get? key).isSome

/-- The entries of an operation. -/
def entriesOf (w : World) (o : OpId) : Option (List (CacheKey × UInt32)) :=
  (w.ops.get? o).map fun op => op.entries

/-- What the properties read of an operation, its slots apart. -/
def plan (w : World) (o : OpId) : Option (List (CacheKey × UInt32) × OrdMap CacheKey KeyState) :=
  (w.ops.get? o).map fun op => (op.entries, op.state)

/-! ### Reading the table -/

theorem stateOf_eq_plan :
    w.stateOf o key = ((w.plan o).bind fun c => c.2.get? key).getD .unsatisfied := by
  unfold stateOf plan Operation.stateOf
  cases w.ops.get? o with
  | none => rfl
  | some op => simp

theorem sizeOf_eq_plan : w.sizeOf o key =
      (w.plan o).bind fun c => (c.1.find? fun e => decide (e.1 = key)).map snd := by
  unfold sizeOf plan Operation.sizeOf
  cases w.ops.get? o <;> rfl

theorem tracks_iff_plan : w.tracks o key ↔ ((w.plan o).bind fun c => c.2.get? key).isSome := by
  unfold tracks plan
  cases w.ops.get? o <;> rfl

theorem live_iff_plan : w.live o ↔ (w.plan o).isSome := by
  unfold live plan
  rw [isSome_map]

theorem entriesOf_eq_plan : w.entriesOf o = (w.plan o).map fst := by
  unfold entriesOf plan
  cases w.ops.get? o <;> rfl

variable {op : Operation} {slot : LandingSlot} {f : Operation → Operation} {act : Act}
  {inf : InFlight} {I : World → Prop} {J : Operation → World → Prop}
  {cond cond' late late' : World → PeerId → OpId → StatusEntry → Prop} {entries : List StatusEntry}
  {from_ peer : PeerId} {n : ℕ}

theorem live_of_get? (h : w.ops.get? o = some op) : w.live o := by
  unfold live
  rw [h]
  rfl

theorem live_of_slotOf (h : w.slotOf o key = some slot) : w.live o := by
  obtain ⟨op, hop, -⟩ := bind_eq_some_iff.mp h
  exact live_of_get? hop

theorem live_of_sizeOf {size : UInt32} (h : w.sizeOf o key = some size) : w.live o := by
  obtain ⟨op, hop, -⟩ := bind_eq_some_iff.mp h
  exact live_of_get? hop

theorem stateOf_of_get? (h : w.ops.get? o = some op) : w.stateOf o key = op.stateOf key := by
  rw [stateOf, h]
  rfl

/-- Only a key with a state is satisfied. -/
theorem tracks_of_satisfied (h : w.stateOf o key = .satisfied) : w.tracks o key := by
  rw [tracks_iff_plan]
  rw [stateOf_eq_plan] at h
  cases hget : (w.plan o).bind fun c => c.2.get? key with
  | none =>
    rw [hget] at h
    cases h
  | some _ => rfl

theorem sizeOf_of_get? (h : w.ops.get? o = some op) : w.sizeOf o key = op.sizeOf key := by
  rw [sizeOf, h]
  rfl

/-! ### Changing an operation -/

theorem ops_updOp :
    (w.updOp o f).ops.get? o' = if o' = o then (w.ops.get? o).map f else w.ops.get? o' := by
  unfold updOp
  split
  next op hop => split_ifs with h <;> simp [h, hop]
  next hnone =>
      split_ifs with h
      · rw [h, hnone]
        rfl
      · rfl

/-- The fields of a world beside the operations. -/
structure SameRest (w w' : World) : Prop where
  inFlight : w'.inFlight = w.inFlight
  orphans : w'.orphans = w.orphans
  map : w'.map = w.map
  callers : w'.callers = w.callers
  running : w'.running = w.running
  serial : w'.serial = w.serial
  disconnects : w'.disconnects = w.disconnects
  log : w'.log = w.log

/-- The operations are the same, their slots apart. -/
structure SameOps (w w' : World) : Prop where
  plan : ∀ o, w'.plan o = w.plan o

/-- **Nothing the properties look at has changed.** -/
structure Quiet (w w' : World) : Prop extends SameRest w w', SameOps w w' where
  slotOf : ∀ {o key}, w'.slotOf o key = w.slotOf o key

theorem Quiet.next (w : World) : Quiet w w.next :=
  ⟨⟨rfl, rfl, rfl, rfl, rfl, rfl, rfl, rfl⟩, ⟨fun _ => rfl⟩, rfl⟩

theorem Quiet.calls (calls : ℕ) : Quiet w { w with calls } :=
  ⟨⟨rfl, rfl, rfl, rfl, rfl, rfl, rfl, rfl⟩, ⟨fun _ => rfl⟩, rfl⟩

theorem updOp_rest : SameRest w (w.updOp o f) := by
  unfold updOp
  split <;> exact ⟨rfl, rfl, rfl, rfl, rfl, rfl, rfl, rfl⟩

theorem SameOps.updOp (hentries : ∀ op, (f op).entries = op.entries)
    (hstate : ∀ op, (f op).state = op.state) : SameOps w (w.updOp o f) := by
  refine ⟨fun o' => ?_⟩
  unfold World.plan
  rw [ops_updOp]
  split_ifs with h
  · subst h
    cases w.ops.get? o' <;> simp [hentries, hstate]
  · rfl

/-- A change of replies, peers tried or the phase is quiet. -/
theorem Quiet.updOp (hentries : ∀ op, (f op).entries = op.entries)
    (hstate : ∀ op, (f op).state = op.state) (hslots : ∀ op, (f op).slots = op.slots) :
    Quiet w (w.updOp o f) := by
  refine ⟨updOp_rest, SameOps.updOp hentries hstate, fun {o' key} => ?_⟩
  unfold World.slotOf
  rw [ops_updOp]
  split_ifs with h
  · subst h
    cases w.ops.get? o' <;> simp [hslots]
  · rfl

namespace SameOps

variable (h : SameOps w w')
include h

theorem stateOf : w'.stateOf o key = w.stateOf o key := by
  rw [stateOf_eq_plan, stateOf_eq_plan, h.plan]

theorem sizeOf : w'.sizeOf o key = w.sizeOf o key := by
  rw [sizeOf_eq_plan, sizeOf_eq_plan, h.plan]

theorem tracks : w'.tracks o key ↔ w.tracks o key := by
  rw [tracks_iff_plan, tracks_iff_plan, h.plan]

theorem live : w'.live o ↔ w.live o := by
  rw [live_iff_plan, live_iff_plan, h.plan]

theorem entriesOf : w'.entriesOf o = w.entriesOf o := by
  rw [entriesOf_eq_plan, entriesOf_eq_plan, h.plan]

end SameOps

/-! ### Setting the progress of a key -/

theorem ops_setState : (w.setState o key s).ops.get? o'
      = if o' = o then (w.ops.get? o).map fun op => op.setState key s else w.ops.get? o' := by
  unfold setState record
  split
  next op hop => split_ifs with h <;> simp [h, hop]
  next hnone =>
      split_ifs with h
      · rw [h, hnone]
        rfl
      · rfl

@[simp] theorem slotOf_setState : (w.setState o key s).slotOf o' key' = w.slotOf o' key' := by
  unfold slotOf
  rw [ops_setState]
  split_ifs with h
  · subst h
    cases w.ops.get? o' <;> simp
  · rfl

@[simp] theorem sizeOf_setState : (w.setState o key s).sizeOf o' key' = w.sizeOf o' key' := by
  unfold sizeOf Operation.sizeOf
  rw [ops_setState]
  split_ifs with h
  · subst h
    cases w.ops.get? o' <;> simp
  · rfl

@[simp] theorem live_setState : (w.setState o key s).live o' ↔ w.live o' := by
  unfold live
  rw [ops_setState]
  split_ifs with h
  · rw [h, isSome_map]
  · rfl

@[simp] theorem entriesOf_setState : (w.setState o key s).entriesOf o' = w.entriesOf o' := by
  unfold entriesOf
  rw [ops_setState]
  split_ifs with h
  · subst h
    cases w.ops.get? o' <;> simp
  · rfl

@[simp] theorem tracks_setState : (w.setState o key s).tracks o' key' ↔ w.tracks o' key' := by
  unfold tracks
  rw [ops_setState]
  split_ifs with h
  · subst h
    cases w.ops.get? o' with
    | none => rfl
    | some op =>
      simp only [map_some, bind_some, Operation.setState]
      split
      next hsome =>
        rw [get?_insert]
        split_ifs with hk
        · simp [hk, hsome]
        · rfl
      · rfl
  · rfl

/-- The other keys and operations are as before. -/
theorem stateOf_setState_of_ne (h : o' ≠ o ∨ key' ≠ key) :
    (w.setState o key s).stateOf o' key' = w.stateOf o' key' := by
  unfold stateOf
  rw [ops_setState]
  split_ifs with ho
  · subst ho
    have hk : key' ≠ key := h.resolve_left fun hne => hne rfl
    cases w.ops.get? o' with
    | none => rfl
    | some op => simp [setState_stateOf_ne hk]
  · rfl

theorem stateOf_setState_self (h : w.tracks o key) : (w.setState o key s).stateOf o key = s := by
  unfold tracks at h
  unfold stateOf
  rw [ops_setState, if_pos rfl]
  cases hop : w.ops.get? o with
  | none =>
    rw [hop] at h
    cases h
  | some op =>
    rw [hop, bind_some] at h
    obtain ⟨old, hold⟩ := isSome_iff_exists.mp h
    simp [Operation.setState, Operation.stateOf, hold]

/-- Only the key that is set to `Satisfied` becomes satisfied. -/
theorem satisfied_of_setState (h : (w.setState o key s).stateOf o' key' = .satisfied) :
    w.stateOf o' key' = .satisfied ∨ (o' = o ∧ key' = key) ∧ s = .satisfied := by
  by_cases hne : o' ≠ o ∨ key' ≠ key
  · rw [stateOf_setState_of_ne hne] at h
    exact .inl h
  · obtain ⟨rfl, rfl⟩ : o' = o ∧ key' = key := by simpa [not_or] using hne
    unfold stateOf at h ⊢
    rw [ops_setState, if_pos rfl] at h
    cases hop : w.ops.get? o' with
    | none =>
      rw [hop] at h
      cases h
    | some op =>
      rw [hop] at h
      exact (satisfied_of_setState h).imp id fun hs => ⟨⟨rfl, rfl⟩, hs.2⟩

theorem setState_rest :
    (w.setState o key s).inFlight = w.inFlight ∧ (w.setState o key s).orphans = w.orphans ∧
      (w.setState o key s).serial = w.serial := by
  unfold setState record
  split <;> exact ⟨rfl, rfl, rfl⟩

@[simp] theorem inFlight_setState : (w.setState o key s).inFlight = w.inFlight := setState_rest.1

@[simp] theorem orphans_setState : (w.setState o key s).orphans = w.orphans := setState_rest.2.1

@[simp] theorem serial_setState : (w.setState o key s).serial = w.serial := setState_rest.2.2

theorem log_setState : (w.setState o key s).log = if w.live o then
          .turned o key (w.stateOf o key) ((w.setState o key s).stateOf o key) :: w.log
        else w.log := by
  by_cases hlive : w.live o
  · obtain ⟨op, hop⟩ := isSome_iff_exists.mp hlive
    have hstate : (w.setState o key s).stateOf o key = (op.setState key s).stateOf key := by
      unfold stateOf
      rw [ops_setState, if_pos rfl, hop]
      rfl
    rw [if_pos hlive, hstate, stateOf_of_get? hop]
    simp [setState, record, hop]
  · have hnone : w.ops.get? o = none := by simpa [live] using hlive
    rw [if_neg hlive]
    simp [setState, hnone]

theorem mem_log_setState (h : ∀ o k b a, act ≠ .turned o k b a) :
    act ∈ (w.setState o key s).log ↔ act ∈ w.log := by
  rw [log_setState]
  split_ifs
  · simp [h]
  · rfl

/-! ### Waiting along and reserving -/

/-- The world in which a slot has been entered, before the progress of its key is set. -/
def withSlot (w : World) (o : OpId) (key : CacheKey) (slot : LandingSlot) : World :=
  (({ w with serial := w.serial + 1 } : World).record (.reserved slot.serial o key slot.peer)).updOp o
    fun op => { op with slots := op.slots.insert key slot }

theorem reserve_eq :
    w.reserve o key slot = (w.withSlot o key slot).setState o key .inProgress := rfl

theorem withSlot_rest {slot : LandingSlot} :
    (w.withSlot o key slot).inFlight = w.inFlight ∧ (w.withSlot o key slot).orphans = w.orphans ∧
      (w.withSlot o key slot).serial = w.serial + 1 ∧
        (w.withSlot o key slot).log = .reserved slot.serial o key slot.peer :: w.log := by
  have h : SameRest _ (w.withSlot o key slot) := updOp_rest
  exact ⟨h.inFlight, h.orphans, h.serial, h.log⟩

theorem withSlot_ops : SameOps w (w.withSlot o key slot) := by
  have h : SameOps _ (w.withSlot o key slot) := SameOps.updOp (fun _ => rfl) fun _ => rfl
  exact ⟨h.plan⟩

theorem mem_log_withSlot {act : Act} (hact : act ∈ w.log) : act ∈ (w.withSlot o key slot).log := by
  rw [withSlot_rest.2.2.2]
  exact mem_cons_of_mem _ hact

/-- Only the reservation is new in the log. -/
theorem of_mem_log_withSlot {act : Act} (hact : act ∈ (w.withSlot o key slot).log)
    (hne : ∀ n o key peer, act ≠ .reserved n o key peer) : act ∈ w.log := by
  rw [withSlot_rest.2.2.2] at hact
  exact (mem_cons.mp hact).resolve_left (hne _ _ _ _)

theorem ops_withSlot : (w.withSlot o key slot).ops.get? o'
      = if o' = o then (w.ops.get? o).map fun op => { op with slots := op.slots.insert key slot }
        else w.ops.get? o' := ops_updOp

theorem slotOf_withSlot (hlive : w.live o) : (w.withSlot o key slot).slotOf o' key'
      = if o' = o ∧ key' = key then some slot else w.slotOf o' key' := by
  obtain ⟨op, hop⟩ := isSome_iff_exists.mp hlive
  unfold slotOf
  rw [ops_withSlot]
  by_cases ho : o' = o
  · subst ho
    rw [if_pos rfl, hop, map_some, bind_some, get?_insert]
    by_cases hk : key' = key <;> simp [hk]
  · simp [ho]

/-- The world in which the key has one more operation waiting along. -/
def withFollower (w : World) (o : OpId) (key : CacheKey) (inf : InFlight) : World :=
  { w with
    inFlight := w.inFlight.insert key (if inf.servingOp ≠ o ∧ o ∉ inf.followers then
      { inf with followers := inf.followers ++ [o] } else inf) }

theorem follow_eq :
    w.follow o key inf = (w.withFollower o key inf).setState o key .inProgress := rfl

/-- Which operation fetches the key may be entered first. -/
theorem serve_reserve :
    (w.reserve o key slot).serve o key = (w.serve o key).reserve o key slot := by
  unfold reserve serve setState updOp record
  dsimp only
  cases hop : w.ops.get? o <;> simp [hop]

/-! ### Taking a slot out -/

theorem slotOf_dropSlot :
    (w.dropSlot o key).slotOf o' key' = if o' = o ∧ key' = key then none else w.slotOf o' key' := by
  unfold slotOf dropSlot
  rw [ops_updOp]
  by_cases ho : o' = o
  · subst ho
    rw [if_pos rfl]
    cases w.ops.get? o' with
    | none => simp
    | some op => by_cases hk : key' = key <;> simp [hk]
  · simp [ho]

theorem dropSlot_rest : SameRest w (w.dropSlot o key) := updOp_rest

theorem dropSlot_ops : SameOps w (w.dropSlot o key) := SameOps.updOp (fun _ => rfl) fun _ => rfl

/-- A slot that has just been reserved is the one its operation holds. -/
theorem slotOf_fetch (hlive : w.live o) :
    ((w.next.reserve o key slot).serve o key).slotOf o key = some slot := by
  show (w.next.reserve o key slot).slotOf o key = some slot
  rw [reserve_eq, slotOf_setState, slotOf_withSlot ((Quiet.next w).live.mpr hlive),
    if_pos ⟨rfl, rfl⟩]

/-! ## The end of an operation -/

/-- A step that keeps a property of the accumulator keeps it along a fold. -/
theorem foldl_keeps {α β : Type} {P : α → Prop} {f : α → β → α} {xs : List β} {a : α} (h : P a)
    (hstep : ∀ a x, x ∈ xs → P a → P (f a x)) : P (xs.foldl f a) := by
  induction xs generalizing a with
  | nil => exact h
  | cons x xs ih =>
    exact ih (hstep a x (mem_cons_self ..) h)
      fun b y hy => hstep b y (mem_cons_of_mem _ hy)

/-- What `finalize` does, in the order in which it does it. `J op` is the property while the
operation `o`, whose last state was `op`, is being cleared away. -/
structure Ends (I : World → Prop) (J : Operation → World → Prop) (o : OpId) : Prop where
  drop : ∀ {w op}, w.ops.get? o = some op → I w → J op { w with ops := w.ops.erase o }
  /-- A key the operation was fetching is no longer being fetched. -/
  release : ∀ {w op key inf}, w.inFlight.get? key = some inf → inf.servingOp = o → J op w →
    J op { w with inFlight := w.inFlight.erase key }
  /-- One that waited along starts over. -/
  reset : ∀ {w op f key}, w.stateOf f key = .inProgress → J op w →
    J op (w.setState f key .unsatisfied)
  without : ∀ {w op}, J op w →
    J op { w with inFlight := w.inFlight.map fun inf : InFlight => inf.without o }
  next : ∀ {w op}, J op w → J op w.next
  orphan : ∀ {w op key slot deadline}, op.slots.get? key = some slot →
    op.stateOf key ≠ .satisfied → J op w →
      J op { w with orphans := w.orphans.insert key ⟨slot.peer, deadline, slot.serial⟩ }
  answer : ∀ {w op}, J op w → I (w.answer o op.results)

/-- A key that loses its server has nobody waiting for it. -/
theorem Ends.abandon (h : Ends I J o)
    (hserving : ∀ inf, w.inFlight.get? key = some inf → inf.servingOp = o) (hJ : J op w) :
    J op (w.abandon key) := by
  unfold World.abandon
  split
  · exact hJ
  next inf hinf =>
    refine foldl_keeps (h.release hinf (hserving inf hinf) hJ) fun w f _ hw => ?_
    split_ifs with hstate
    · exact h.reset hstate hw
    · exact hw

theorem inFlight_abandon (h : (w.abandon key).inFlight.get? key' = some inf) :
    w.inFlight.get? key' = some inf := by
  unfold abandon at h
  split at h
  · exact h
  next inf' hinf =>
    have hfold : ∀ fs : List OpId, (fs.foldl (fun w f =>
        if w.stateOf f key = .inProgress then w.setState f key .unsatisfied else w)
        ({ w with inFlight := w.inFlight.erase key } : World)).inFlight = w.inFlight.erase key := by
      intro fs
      refine foldl_keeps (P := fun v : World => v.inFlight = w.inFlight.erase key) rfl
        fun v f _ hv => ?_
      split_ifs
      · rw [inFlight_setState, hv]
      · exact hv
    rw [hfold, get?_erase] at h
    split_ifs at h
    exact h

/-- **The rule for `finalize`.** -/
theorem Ends.finalize (h : Ends I J o) (hI : I w) : I (w.finalize env o) := by
  unfold World.finalize
  split
  · exact hI
  next op hop =>
    have hdrop := h.drop hop hI
    refine h.answer (foldl_keeps (h.next (h.without ?_)) fun v e he hv => ?_)
    · -- the keys served shrink as they are abandoned, so those left still name this operation
      refine (foldl_keeps (P := fun v : World => J op v ∧ ∀ k inf,
        v.inFlight.get? k = some inf → w.inFlight.get? k = some inf) ⟨hdrop, fun _ _ => id⟩
        fun v key hkey hv => ⟨h.abandon (fun inf hinf => ?_) hv.1,
          fun k inf hk => hv.2 k inf (inFlight_abandon hk)⟩).1
      obtain ⟨⟨k, inf'⟩, hmem, rfl⟩ := List.mem_map.mp hkey
      rw [mem_filter] at hmem
      have hget := hv.2 _ _ hinf
      rw [OrdMap.mem_entries.mp hmem.1, Option.some.injEq] at hget
      exact hget ▸ of_decide_eq_true hmem.2
    · rw [mem_filter] at he
      exact h.orphan (OrdMap.mem_entries.mp he.1) (of_decide_eq_true he.2) hv

theorem ops_answer {results : BatchResult} : (w.answer o results).ops = w.ops := by
  unfold answer
  split <;> rfl

theorem stateOf_drop {key : CacheKey} : ({ w with ops := w.ops.erase o } : World).stateOf o' key
      = if o' = o then .unsatisfied else w.stateOf o' key := by
  unfold stateOf
  rw [get?_erase]
  split_ifs <;> rfl

/-! ## The handlers that fetch and finish -/

/-- **A property that fetching and finishing keep.** -/
structure Closed (I : World → Prop) : Prop where
  quiet : ∀ {w w'}, Quiet w w' → I w → I w'
  follow : ∀ {w o key inf}, w.live o → w.stateOf o key ≠ .satisfied →
    w.inFlight.get? key = some inf → I w → I (w.follow o key inf)
  reserve : ∀ {w o key slot}, w.sizeOf o key = some slot.len → w.stateOf o key ≠ .satisfied →
    slot.serial = w.serial → w.orphans.get? key = none → w.inFlight.get? key = none →
      I w → I ((w.reserve o key slot).serve o key)
  advertise : ∀ {w o key slot}, w.slotOf o key = some slot → I w →
    I (w.record (.advertised slot.serial o key slot.peer))
  finalize : ∀ {env w o}, I w → I (w.finalize env o)

namespace Closed

variable {I : World → Prop} (hI : Closed I)
include hI

theorem fetch {addr : Pointer} {size : UInt32} {peer : PeerId}
    (hsize : w.sizeOf o key = some size) (hstate : w.stateOf o key ≠ .satisfied)
    (horphan : w.orphans.get? key = none) (hinf : w.inFlight.get? key = none) (h : I w) :
    I ((w.next.reserve o key ⟨addr, size, peer, w.serial⟩).serve o key) :=
  hI.reserve ((Quiet.next w).sizeOf.trans hsize) (by rw [(Quiet.next w).stateOf]; exact hstate)
    rfl horphan hinf (hI.quiet (Quiet.next w) h)

/-- The search for a holder on disk keeps the property, and no key becomes satisfied by it. -/
theorem phase2Key (hstate : w.stateOf o key ≠ .satisfied) (h : I w) :
    I (w.phase2Key env o key) := by
  unfold World.phase2Key
  cases hop : w.ops.get? o with
  | none => exact h
  | some op =>
    cases hsize : op.sizeOf key with
    | none => simpa only [hsize] using h
    | some size =>
      have hw : w.next.sizeOf o key = some size := (sizeOf_of_get? hop).trans hsize
      have hnext : I w.next := hI.quiet (Quiet.next w) h
      simp only [hsize]
      cases hinf : w.inFlight.get? key with
      | some inf => exact hI.follow (live_of_get? hop) hstate hinf h
      | none =>
        obtain ⟨diskPeer, hpick⟩ :
          ∃ p, w.choose env (op.holders key size .disk) = (p, w.next) := ⟨_, rfl⟩
        rw [hpick]
        cases diskPeer with
        | none => exact hnext
        | some peer =>
          dsimp only
          split
          · exact hnext
          rename_i horphan
          split
          · exact hI.quiet (Quiet.next _) hnext
          next addr _ =>
            refine hI.advertise ?_ (hI.fetch hw hstate (by simpa using horphan) hinf hnext)
            exact slotOf_fetch (live_of_get? hop)

end Closed

theorem closed_unsatisfied (o : OpId) (key : CacheKey) :
    Closed fun w => w.stateOf o key ≠ .satisfied where
  quiet hquiet h := by rwa [hquiet.stateOf]
  follow _ _ _ h hsat := by
    rcases satisfied_of_setState hsat with hsat | ⟨-, hne⟩
    · exact h hsat
    · cases hne
  reserve _ _ _ _ _ h hsat := by
    rcases satisfied_of_setState (w := withSlot _ _ _ _) hsat with hsat | ⟨-, hne⟩
    · rw [withSlot_ops.stateOf] at hsat
      exact h hsat
    · cases hne
  advertise _ h := h
  finalize {env w o'} h := by
    have hends : Ends (fun w => w.stateOf o key ≠ .satisfied)
        (fun _ w => w.stateOf o key ≠ .satisfied) o' :=
      { drop := fun _ h => by
          rw [stateOf_drop]
          split_ifs
          · simp
          · exact h
        release := fun _ _ h => h
        reset := fun _ h hsat => by
          rcases satisfied_of_setState hsat with hsat | ⟨-, hne⟩
          · exact h hsat
          · cases hne
        without := fun h => h
        next := fun h => h
        orphan := fun _ _ h => h
        answer := fun h => by
          unfold stateOf
          rw [ops_answer]
          exact h }
    exact hends.finalize h

namespace Closed

variable {I : World → Prop} (hI : Closed I)
include hI

theorem tryPhase2 (h : I w) : I (w.tryPhase2 env o) := by
  unfold World.tryPhase2
  split
  · exact h
  next op hop =>
    refine (foldl_keeps (P := fun v : World => I v ∧ ∀ k ∈ (op.entries.map fst).filter
      (fun k => decide (op.stateOf k = .unsatisfied)), v.stateOf o k ≠ .satisfied)
      ⟨h, fun k hk => ?_⟩ fun v key hkey hv => ⟨hI.phase2Key (hv.2 key hkey) hv.1, ?_⟩).1
    · rw [mem_filter] at hk
      rw [stateOf_of_get? hop, of_decide_eq_true hk.2]
      simp
    · exact fun k hk => (closed_unsatisfied o k).phase2Key (hv.2 key hkey) (hv.2 k hk)

theorem advance (h : I w) : I (w.advance env o) := by
  unfold World.advance
  split
  · exact h
  next op hop =>
    have hnext : I w.next := hI.quiet (Quiet.next w) h
    dsimp only
    split_ifs
    · exact hI.finalize hnext
    · exact hnext
    · refine hI.finalize (hI.tryPhase2 (hI.quiet ?_ hnext))
      exact Quiet.updOp (fun _ => rfl) (fun _ => rfl) fun _ => rfl
    · refine hI.tryPhase2 (hI.quiet ?_ hnext)
      exact Quiet.updOp (fun _ => rfl) (fun _ => rfl) fun _ => rfl

theorem checkAllCompletions (h : I w) : I (w.checkAllCompletions env) :=
  foldl_keeps (hI.quiet (Quiet.next w) h) fun _ _ _ hv => hI.advance hv

theorem tickDeadlines (h : I w) : I (w.tickDeadlines env) := by
  refine foldl_keeps (hI.quiet (Quiet.next _) ?_) fun _ _ _ hv => hI.advance hv
  exact foldl_keeps (hI.quiet (Quiet.next _) (hI.quiet (Quiet.next w) h))
    fun _ _ _ hv => hI.finalize hv

/-- The slots collected for one request are those the operation holds for their keys. -/
def Collected (o : OpId) (from_ : PeerId) (acc : World × List (CacheKey × LandingSlot)) : Prop :=
  ∀ s ∈ acc.2, acc.1.slotOf o s.1 = some s.2 ∧ s.2.peer = from_ ∧
    (acc.1.inFlight.get? s.1).isSome

variable {from_ : PeerId}

theorem considerEntry {acc : World × List (CacheKey × LandingSlot)} {e : CacheKey × UInt32 × Avail}
    (h : I acc.1) (hcol : Collected o from_ acc) :
    I (considerEntry env o from_ acc e).1 ∧
      Collected o from_ (considerEntry env o from_ acc e) := by
  obtain ⟨w, slots⟩ := acc
  obtain ⟨key, size, avail⟩ := e
  unfold World.considerEntry
  dsimp only at h ⊢
  cases hop : w.ops.get? o with
  | none => exact ⟨h, hcol⟩
  | some op =>
    dsimp only
    split
    · rename_i hwants
      obtain ⟨-, hstate, hsize⟩ := hwants
      have hlive := live_of_get? hop
      have hunsat : w.stateOf o key ≠ .satisfied := by
        rw [stateOf_of_get? hop, hstate]
        simp
      cases hinf : w.inFlight.get? key with
      | some inf =>
        dsimp only
        refine ⟨hI.follow hlive hunsat hinf h, fun s hs => ?_⟩
        dsimp only
        obtain ⟨hslot, hpeer, hflight⟩ := hcol s hs
        refine ⟨by rw [follow_eq, slotOf_setState]; exact hslot, hpeer, ?_⟩
        rw [follow_eq, inFlight_setState, withFollower, get?_insert]
        split
        · rfl
        · exact hflight
      | none =>
        dsimp only
        split
        · exact ⟨h, hcol⟩
        rename_i horphan
        cases env.insert w.calls with
        | none => exact ⟨hI.quiet (Quiet.next w) h, hcol⟩
        | some addr =>
          refine ⟨hI.fetch ((sizeOf_of_get? hop).trans hsize) hunsat (by simpa using horphan)
            hinf h, fun s hs => ?_⟩
          rcases mem_append.mp hs with hs | hs
          · -- an earlier slot is of another key, since its key is in flight already
            obtain ⟨hslot, hpeer, hflight⟩ := hcol s hs
            have hne : s.1 ≠ key := fun heq => by
              rw [heq, hinf] at hflight
              cases hflight
            refine ⟨?_, hpeer, ?_⟩
            · show (w.next.reserve o key _).slotOf o s.1 = _
              rw [reserve_eq, slotOf_setState,
                slotOf_withSlot ((Quiet.next w).live.mpr hlive), if_neg fun heq => hne heq.2]
              exact hslot
            · show (((w.next.reserve o key _).inFlight.insert key _).get? s.1).isSome
              rw [get?_insert, if_neg hne, reserve_eq, inFlight_setState, withSlot_rest.1]
              exact hflight
          · obtain rfl := mem_singleton.mp hs
            refine ⟨slotOf_fetch hlive, rfl, ?_⟩
            show (((w.next.reserve o key _).inFlight.insert key _).get? key).isSome
            simp
    · exact ⟨h, hcol⟩

theorem advertiseAll {peer : PeerId} {slots : List (CacheKey × LandingSlot)} (h : I w)
    (hslots : ∀ s ∈ slots, w.slotOf o s.1 = some s.2 ∧ s.2.peer = peer) :
    I (w.advertise o peer slots) := by
  induction slots generalizing w with
  | nil => exact h
  | cons s rest ih =>
    obtain ⟨hslot, rfl⟩ := hslots s (mem_cons_self ..)
    exact ih (hI.advertise hslot h) fun s' hs' => hslots s' (mem_cons_of_mem _ hs')

theorem onKeyResponse {entries : List (CacheKey × UInt32 × Avail)} (h : I w) :
    I (w.onKeyResponse env from_ o entries) := by
  unfold World.onKeyResponse
  split
  · exact h
  next op hop =>
    have hcounted : I (if (op.replies.get? from_).isNone then
        w.updOp o fun op => { op with peersReplied := op.peersReplied + 1 } else w) := by
      split_ifs
      · exact hI.quiet (Quiet.updOp (fun _ => rfl) (fun _ => rfl) fun _ => rfl) h
      · exact h
    have hloop : I (entries.foldl (World.considerEntry env o from_) (_, [])).1 ∧
        Collected o from_ (entries.foldl (World.considerEntry env o from_) (_, [])) :=
      foldl_keeps (P := fun acc => I acc.1 ∧ Collected o from_ acc)
        ⟨hcounted, fun s hs => by cases hs⟩ fun acc e _ hacc => hI.considerEntry hacc.1 hacc.2
    refine hI.advance (hI.advertiseAll (hI.quiet ?_ hloop.1) fun s hs => ?_)
    · exact Quiet.updOp (fun _ => rfl) (fun _ => rfl) fun _ => rfl
    · obtain ⟨hslot, hpeer, -⟩ := hloop.2 s hs
      refine ⟨(Quiet.slotOf ?_).trans hslot, hpeer⟩
      exact Quiet.updOp (fun _ => rfl) (fun _ => rfl) fun _ => rfl

end Closed

/-! ## Statuses -/

/-- **What a success report does** to the slot it is about. `J` is the property while the entry is
being worked on. -/
structure Publishes (env : Env) (I J : World → Prop) (o : OpId) (key : CacheKey)
    (slot : LandingSlot) : Prop where
  meanwhile : ∀ {w}, J w → J (w.meanwhile env)
  observe : ∀ {w}, J w → J (w.observe key)
  /-- The entry is created on the slot. -/
  publish : ∀ {w map}, w.map.createMemoryTierEntry key slot.addr slot.len = (.ok (), map) → J w →
    I ((((({ w with map } : World).observe key).record
      (.published slot.serial o key)).releaseWrite env key).record
        (.scheduled key slot.len) |>.setState o key .satisfied)
  /-- An entry of the same size was there first. -/
  accept : ∀ {w}, w.map.entrySize key = .ok slot.len → J w →
    I ((w.observe key).setState o key .satisfied)
  /-- An entry of another size was there first. -/
  reject : ∀ {w}, J w → I (((w.dropSlot o key).free slot.serial).setState o key .unsatisfied)
  /-- The map cannot take entries. -/
  refuse : ∀ {w}, J w → I (w.setState o key .unsatisfied)

theorem createMemoryTierEntry_error {m map : DispatchMap} {addr : Pointer} {len : UInt32}
    {e : DispatchMapError} (h : m.createMemoryTierEntry key addr len = (.error e, map)) :
    map = m := by
  unfold DispatchMap.createMemoryTierEntry at h
  split_ifs at h
  · cases h
    rfl
  · split at h <;> cases h
    rfl

/-- **The rule for `publishSuccess`.** -/
theorem Publishes.publishSuccess {I J : World → Prop} (h : Publishes env I J o key slot)
    (hslot : w.slotOf o key = some slot) (hJ : J w) : I (w.publishSuccess env o key) := by
  unfold World.publishSuccess
  rw [hslot]
  dsimp only
  have hw := h.meanwhile hJ
  unfold createMemoryTierEntry
  cases env.refuses w.calls with
  | some msg => exact h.refuse hw
  | none =>
    dsimp only
    cases hcreate : (w.meanwhile env).map.createMemoryTierEntry key slot.addr slot.len with
    | mk r map =>
    cases r with
    | ok _ => exact h.publish hcreate hw
    | error e =>
      obtain rfl := createMemoryTierEntry_error hcreate
      have hseen := h.observe hw
      dsimp only
      split
      next heq => cases heq
      next v heq =>
        -- the entry that was there first decides by its size
        have hw' := h.meanwhile hseen
        obtain ⟨-, rfl⟩ := Prod.mk.inj heq
        unfold entrySize
        dsimp only
        split
        next size u heq' =>
          obtain ⟨hsize, rfl⟩ := Prod.mk.inj heq'
          split_ifs with hlen
          · exact h.accept (hlen ▸ hsize) hw'
          · exact h.reject (h.observe hw')
        next u heq' =>
          obtain ⟨-, rfl⟩ := Prod.mk.inj heq'
          exact h.reject (h.observe hw')
      next v _ heq =>
        obtain ⟨-, rfl⟩ := Prod.mk.inj heq
        exact h.refuse hseen

/-- **What another attempt does** to a key that could not be fetched. -/
structure Retries (I K : World → Prop) (o : OpId) (key : CacheKey) : Prop where
  quiet : ∀ {w w'}, Quiet w w' → K w → K w'
  done : ∀ {w}, K w → I w
  reserve : ∀ {w slot}, w.sizeOf o key = some slot.len → slot.serial = w.serial →
    w.orphans.get? key = none → K w →
      I ((w.reserve o key slot).record (.advertised slot.serial o key slot.peer))

section

variable {I K : World → Prop}

/-- **The rule for `tryRetry`.** -/
theorem Retries.tryRetry (h : Retries I K o key) (hK : K w) :
    I (w.tryRetry env o key).2 ∧ ((w.tryRetry env o key).1 = false → K (w.tryRetry env o key).2) := by
  unfold World.tryRetry
  cases hop : w.ops.get? o with
  | none => exact ⟨h.done hK, fun _ => hK⟩
  | some op =>
    dsimp only
    cases hsize : op.sizeOf key with
    | none => exact ⟨h.done hK, fun _ => hK⟩
    | some size =>
      dsimp only
      split
      · exact ⟨h.done hK, fun _ => hK⟩
      obtain ⟨inMemory, hmem⟩ :
        ∃ p, w.choose env (op.holders key size .memory) = (p, w.next) := ⟨_, rfl⟩
      rw [hmem]
      dsimp only
      obtain ⟨onDisk, hdisk⟩ :
        ∃ p, w.next.choose env (op.holders key size .disk) = (p, w.next.next) := ⟨_, rfl⟩
      rw [hdisk]
      dsimp only
      have hK' : K w.next.next := h.quiet (Quiet.next _) (h.quiet (Quiet.next w) hK)
      cases inMemory.or onDisk with
      | none => exact ⟨h.done hK', fun _ => hK'⟩
      | some alternate =>
        dsimp only
        split
        · exact ⟨h.done hK', fun _ => hK'⟩
        rename_i horphan
        cases env.insert w.next.next.calls with
        | none =>
          have hK'' := h.quiet (Quiet.next _) hK'
          exact ⟨h.done hK'', fun _ => hK''⟩
        | some addr =>
          refine ⟨h.reserve ?_ rfl (not_isSome_iff_eq_none.mp horphan)
            (h.quiet (Quiet.next _) hK'), fun hfalse => by cases hfalse⟩
          exact (sizeOf_of_get? hop).trans hsize

/-- What is answered for a failed entry once it was retried. -/
theorem outcome_of_retry {t : Bool × World} (ht : I t.2 ∧ (t.1 = false → K t.2)) :
    ∀ r, (match t with
      | (true, w) => (w, none)
      | (false, w) => (w, some (key, false))) = r →
      I r.1 ∧ ∀ outcome ∈ r.2, outcome.1 = key ∧ K r.1 ∧ outcome.2 = false := by
  rintro r rfl
  obtain ⟨retried, v⟩ := t
  cases retried with
  | true => exact ⟨ht.1, fun _ h => by cases h⟩
  | false =>
    refine ⟨ht.1, fun outcome h => ?_⟩
    obtain rfl := some.inj h
    exact ⟨rfl, ht.2 rfl, rfl⟩

/-- **The rule for one entry of a status.** `K` holds of a key that has failed. -/
theorem statusEntry_rule {from_ : PeerId} {code : RdmaStatusCode}
    {about : Option ℕ} (hretry : Retries I K o key)
    (hsuccess : I ((w.reportOn from_ about).publishSuccess env o key))
    (hfailed : K ((w.reportOn from_ about).failed from_ o key)) :
    I (w.statusEntry env from_ o (key, code, about)).1 ∧
      ∀ outcome ∈ (w.statusEntry env from_ o (key, code, about)).2, outcome.1 = key ∧
        (K (w.statusEntry env from_ o (key, code, about)).1 ∧ outcome.2 = false ∨
          (w.statusEntry env from_ o (key, code, about)).1
            = (w.reportOn from_ about).publishSuccess env o key ∧
          outcome.2 = decide
            ((w.statusEntry env from_ o (key, code, about)).1.stateOf o key = .satisfied)) := by
  have hretried := @Retries.tryRetry env _ _ _ _ _ hretry hfailed
  have hfailure := @outcome_of_retry key I K _ hretried
  cases code with
  | success =>
    refine ⟨hsuccess, fun outcome h => ?_⟩
    obtain rfl := some.inj h
    exact ⟨rfl, .inr ⟨rfl, rfl⟩⟩
  | unableToConnect | keyNoLongerAvailable =>
    obtain ⟨hI, hout⟩ := hfailure _ rfl
    exact ⟨hI, fun outcome h => ⟨(hout outcome h).1, .inl (hout outcome h).2⟩⟩

end

/-- What happens to one key leaves the slots of another alone, and the log only grows. -/
structure Beside (key : CacheKey) (w w' : World) : Prop where
  slots : ∀ o, w'.slotOf o key = w.slotOf o key
  log : ∀ act ∈ w.log, act ∈ w'.log

namespace Beside

theorem refl : Beside key w w := ⟨fun _ => rfl, fun _ h => h⟩

theorem trans {u : World} (h : Beside key w w') (h' : Beside key w' u) : Beside key w u :=
  ⟨fun o => (h'.slots o).trans (h.slots o), fun act hact => h'.log act (h.log act hact)⟩

theorem of_quiet (h : Quiet w w') : Beside key w w' :=
  ⟨fun _ => h.slotOf, fun _ hact => by rwa [h.log]⟩

theorem record {act : Act} : Beside key w (w.record act) :=
  ⟨fun _ => rfl, fun _ hact => mem_cons_of_mem _ hact⟩

theorem setState : Beside key w (w.setState o key' s) := by
  refine ⟨fun _ => slotOf_setState, fun act hact => ?_⟩
  rw [log_setState]
  split_ifs
  · exact mem_cons_of_mem _ hact
  · exact hact

theorem dropSlot (hne : key ≠ key') : Beside key w (w.dropSlot o key') := by
  refine ⟨fun o' => ?_, fun act hact => ?_⟩
  · rw [slotOf_dropSlot, if_neg fun h => hne h.2]
  · rwa [dropSlot_rest.log]

variable {slot : LandingSlot} {from_ : PeerId}

theorem withSlot (hlive : w.live o) (hne : key ≠ key') : Beside key w (w.withSlot o key' slot) := by
  refine ⟨fun o' => ?_, fun act hact => mem_log_withSlot hact⟩
  rw [slotOf_withSlot hlive, if_neg fun h => hne h.2]

theorem observe : Beside key w (w.observe key') := by
  unfold World.observe
  split
  · exact record
  · exact refl

theorem reportOn {about : Option ℕ} : Beside key w (w.reportOn from_ about) := by
  cases about with
  | none => exact refl
  | some serial => exact record

theorem publishes (env : Env) (hne : key ≠ key') :
    Publishes env (Beside key w) (Beside key w) o key' slot where
  meanwhile h := h.trans ⟨fun _ => rfl, fun _ hact => hact⟩
  observe h := h.trans observe
  publish {v map} _ h := by
    have hseen : Beside key v (({ v with map } : World).observe key') :=
      (show Beside key v { v with map } from ⟨fun _ => rfl, fun _ hact => hact⟩).trans observe
    have hrel : ∀ u : World, Beside key u (u.releaseWrite env key') := fun _ =>
      ⟨fun _ => rfl, fun _ hact => hact⟩
    exact (((h.trans hseen).trans record).trans (hrel _)).trans (record.trans setState)
  accept _ h := (h.trans observe).trans setState
  reject h := (h.trans (dropSlot hne)).trans (record.trans setState)
  refuse h := h.trans setState

theorem failed (hne : key ≠ key') : Beside key w (w.failed from_ o key') := by
  have hreclaim : Beside key w (w.reclaim o key') := by
    unfold reclaim
    split
    · exact (dropSlot hne).trans record
    · exact refl
  exact (hreclaim.trans setState).trans
    (of_quiet (Quiet.updOp (fun _ => rfl) (fun _ => rfl) fun _ => rfl))

theorem statusEntry {e : StatusEntry} (hne : key ≠ e.1) :
    Beside key w (w.statusEntry env from_ o e).1 := by
  obtain ⟨key', code, about⟩ := e
  have hretry : Retries (Beside key w) (Beside key w) o key' :=
    { quiet := fun hquiet h => h.trans (of_quiet hquiet)
      done := fun h => h
      reserve := fun hsize _ _ h =>
        ((h.trans (withSlot (live_of_sizeOf hsize) hne)).trans setState).trans record }
  refine (statusEntry_rule hretry ?_ (reportOn.trans (failed hne))).1
  cases hslot : (w.reportOn from_ about).slotOf o key' with
  | none =>
    unfold publishSuccess
    rw [hslot]
    exact reportOn
  | some slot => exact (publishes env hne).publishSuccess hslot reportOn

end Beside

/-- Each entry of a status meets the condition when its turn comes. -/
def EntriesMeet (env : Env) (cond : World → PeerId → OpId → StatusEntry → Prop) (from_ : PeerId)
    (o : OpId) : World → List StatusEntry → Prop
  | _, [] => True
  | w, e :: rest =>
    cond w from_ o e ∧ EntriesMeet env cond from_ o (w.statusEntry env from_ o e).1 rest

/-- Each entry of a late status meets the condition when its turn comes. -/
def LateMeet (late : World → PeerId → OpId → StatusEntry → Prop) (from_ : PeerId) (o : OpId) :
    World → List StatusEntry → Prop
  | _, [] => True
  | w, e :: rest => late w from_ o e ∧ LateMeet late from_ o (w.lateEntry from_ e) rest

/-- The condition on a status: one for live operations, one for those that have ended. -/
def StatusMeets (env : Env) (cond late : World → PeerId → OpId → StatusEntry → Prop)
    (from_ : PeerId) (o : OpId) (w : World) (entries : List StatusEntry) : Prop :=
  if w.live o then EntriesMeet env cond from_ o w entries else LateMeet late from_ o w entries

theorem EntriesMeet.and :
    ∀ {w}, EntriesMeet env cond from_ o w entries → EntriesMeet env cond' from_ o w entries →
      EntriesMeet env (fun w p o e => cond w p o e ∧ cond' w p o e) from_ o w entries := by
  induction entries with
  | nil => exact fun _ _ => trivial
  | cons e rest ih => exact fun h h' => ⟨⟨h.1, h'.1⟩, ih h.2 h'.2⟩

theorem LateMeet.and : ∀ {w}, LateMeet late from_ o w entries → LateMeet late' from_ o w entries →
      LateMeet (fun w p o e => late w p o e ∧ late' w p o e) from_ o w entries := by
  induction entries with
  | nil => exact fun _ _ => trivial
  | cons e rest ih => exact fun h h' => ⟨⟨h.1, h'.1⟩, ih h.2 h'.2⟩

theorem StatusMeets.and (h : StatusMeets env cond late from_ o w entries)
    (h' : StatusMeets env cond' late' from_ o w entries) :
    StatusMeets env (fun w p o e => cond w p o e ∧ cond' w p o e)
      (fun w p o e => late w p o e ∧ late' w p o e) from_ o w entries := by
  unfold StatusMeets at *
  split_ifs at *
  · exact h.and h'
  · exact h.and h'

instance decEntriesMeet (env : Env) (cond : World → PeerId → OpId → StatusEntry → Prop)
    [∀ w p o e, Decidable (cond w p o e)] (from_ : PeerId) (o : OpId) :
    ∀ (entries : List StatusEntry) (w : World), Decidable (EntriesMeet env cond from_ o w entries)
  | [], _ => isTrue trivial
  | e :: rest, w =>
    have := decEntriesMeet env cond from_ o rest (w.statusEntry env from_ o e).1
    inferInstanceAs (Decidable (_ ∧ _))

instance decLateMeet (late : World → PeerId → OpId → StatusEntry → Prop)
    [∀ w p o e, Decidable (late w p o e)] (from_ : PeerId) (o : OpId) :
    ∀ (entries : List StatusEntry) (w : World), Decidable (LateMeet late from_ o w entries)
  | [], _ => isTrue trivial
  | e :: rest, w =>
    have := decLateMeet late from_ o rest (w.lateEntry from_ e)
    inferInstanceAs (Decidable (_ ∧ _))

instance (env : Env) (cond late : World → PeerId → OpId → StatusEntry → Prop)
    [∀ w p o e, Decidable (cond w p o e)] [∀ w p o e, Decidable (late w p o e)]
    (from_ : PeerId) (o : OpId) (w : World) (entries : List StatusEntry) :
    Decidable (StatusMeets env cond late from_ o w entries) := by
  unfold StatusMeets
  infer_instance

/-- **What a status does**, entry by entry. `R` is what is known of an outcome that those who wait
along are still to learn. -/
structure Statuses (env : Env) (I : World → Prop)
    (cond late : World → PeerId → OpId → StatusEntry → Prop)
    (R : CacheKey × Bool → World → Prop) : Prop where
  entry : ∀ {w from_ o e}, cond w from_ o e → I w → I (w.statusEntry env from_ o e).1 ∧
    ∀ outcome ∈ (w.statusEntry env from_ o e).2, R outcome (w.statusEntry env from_ o e).1
  /-- What is known of an outcome is not lost by the entries that follow. -/
  keep : ∀ {w from_ o e outcome}, cond w from_ o e → I w → R outcome w →
    R outcome (w.statusEntry env from_ o e).1
  settle : ∀ {w outcome}, I w → R outcome w → I (w.settle outcome)
  /-- Nor by telling others. -/
  told : ∀ {w outcome outcome'}, I w → R outcome w → R outcome' w → R outcome' (w.settle outcome)
  late : ∀ {w from_ o e}, late w from_ o e → I w → I (w.lateEntry from_ e)

namespace Statuses

variable {I : World → Prop} {cond late : World → PeerId → OpId → StatusEntry → Prop}
  {R : CacheKey × Bool → World → Prop} {from_ : PeerId} {entries : List StatusEntry}
  (h : Statuses env I cond late R)
include h

theorem statusEntries (hmeet : EntriesMeet env cond from_ o w entries) (hI : I w) :
    I (w.statusEntries env from_ o entries).1 ∧
      (∀ outcome ∈ (w.statusEntries env from_ o entries).2,
        R outcome (w.statusEntries env from_ o entries).1) ∧
      ∀ outcome, R outcome w → R outcome (w.statusEntries env from_ o entries).1 := by
  induction entries generalizing w with
  | nil => exact ⟨hI, fun _ hmem => (by cases hmem), fun _ hR => hR⟩
  | cons e rest ih =>
    obtain ⟨hentry, hout⟩ := h.entry hmeet.1 hI
    obtain ⟨hrest, hrestOut, hrestKeep⟩ := ih hmeet.2 hentry
    refine ⟨hrest, fun outcome hmem => ?_, fun outcome hR =>
      hrestKeep outcome (h.keep hmeet.1 hI hR)⟩
    rcases mem_append.mp hmem with hmem | hmem
    · exact hrestKeep outcome (hout outcome (mem_toList.mp hmem))
    · exact hrestOut outcome hmem

theorem settleAll {resolved : List (CacheKey × Bool)} (hI : I w)
    (hR : ∀ outcome ∈ resolved, R outcome w) : I (resolved.foldl World.settle w) := by
  induction resolved generalizing w with
  | nil => exact hI
  | cons outcome rest ih =>
    have hout := hR outcome (mem_cons_self ..)
    exact ih (h.settle hI hout) fun other hmem =>
      h.told hI hout (hR other (mem_cons_of_mem _ hmem))

/-- **The rule for a status.** -/
theorem onRdmaStatus (hclosed : Closed I) (hmeets : StatusMeets env cond late from_ o w entries)
    (hI : I w) : I (w.onRdmaStatus env from_ o entries) := by
  unfold World.onRdmaStatus
  unfold StatusMeets at hmeets
  split
  next hnone =>
    rw [if_neg (by simp [live, hnone])] at hmeets
    clear hnone
    induction entries generalizing w with
    | nil => exact hI
    | cons e rest ih => exact ih hmeets.2 (h.late hmeets.1 hI)
  next op hop =>
    rw [if_pos (live_of_get? hop)] at hmeets
    obtain ⟨hall, hout, -⟩ := h.statusEntries hmeets hI
    exact hclosed.checkAllCompletions (h.settleAll hall hout)

end Statuses

/-! ## Those that wait along -/

theorem settle_keeps {P : World → Prop} {outcome : CacheKey × Bool} (h : P w)
    (herase : ∀ inf, w.inFlight.get? outcome.1 = some inf →
      P { w with inFlight := w.inFlight.erase outcome.1 })
    (hset : ∀ inf v f, w.inFlight.get? outcome.1 = some inf → f ∈ inf.followers → P v →
      P (v.setState f outcome.1 (if outcome.2 then .satisfied else .unsatisfied))) :
    P (w.settle outcome) := by
  unfold settle
  split
  · exact h
  next inf hinf =>
    exact foldl_keeps (herase inf hinf) fun v f hf hv => hset inf v f hinf hf hv

/-! ## Departed peers -/

theorem mem_exposedInOps : (o, key, n) ∈ w.exposedInOps peer ↔
      ∃ slot, w.slotOf o key = some slot ∧ slot.peer = peer ∧ slot.serial = n := by
  unfold exposedInOps slotOf
  simp only [mem_flatMap, List.mem_map, mem_filter, Prod.exists, Prod.mk.injEq,
    mem_entries, bind_eq_some_iff, decide_eq_true_eq]
  constructor
  · rintro ⟨o', op, hop, k, slot, ⟨hslot, hpeer⟩, rfl, rfl, rfl⟩
    exact ⟨slot, ⟨op, hop, hslot⟩, hpeer, rfl⟩
  · rintro ⟨slot, ⟨op, hop, hslot⟩, hpeer, rfl⟩
    exact ⟨o, op, hop, key, slot, ⟨hslot, hpeer⟩, rfl, rfl, rfl⟩

theorem mem_exposedOrphans : (key, n) ∈ w.exposedOrphans peer ↔
      ∃ orphan, w.orphans.get? key = some orphan ∧ orphan.peer = peer ∧ orphan.serial = n := by
  unfold exposedOrphans
  simp only [List.mem_map, mem_filter, Prod.exists, Prod.mk.injEq, mem_entries, decide_eq_true_eq]
  constructor
  · rintro ⟨k, orphan, ⟨hget, hpeer⟩, rfl, rfl⟩
    exact ⟨orphan, hget, hpeer, rfl⟩
  · rintro ⟨orphan, hget, hpeer, rfl⟩
    exact ⟨key, orphan, ⟨hget, hpeer⟩, rfl, rfl⟩

theorem Quiet.dropReplies (peer : PeerId) :
    Quiet w { w with ops := w.ops.map fun op : Operation => op.dropReply peer } := by
  refine ⟨⟨rfl, rfl, rfl, rfl, rfl, rfl, rfl, rfl⟩, ⟨fun o' => ?_⟩, fun {o' _} => ?_⟩
  · unfold World.plan
    rw [get?_map]
    cases w.ops.get? o' <;> rfl
  · unfold World.slotOf
    rw [get?_map]
    cases w.ops.get? o' <;> rfl

/-- The acknowledgements noted while the actor waits. -/
def acksOf (index : ℕ) (polls : List Poll) : List Act :=
  polls.filterMap fun
    | .disconnectAck node fresh => some (.acked node (if fresh then some index else none))
    | _ => none

theorem foldl_acks (index : ℕ) (polls : List Poll) (w : World) :
    polls.foldl (fun w poll => match poll with
      | .disconnectAck node fresh => w.record (.acked node (if fresh then some index else none))
      | _ => w) w = { w with log := (acksOf index polls).reverse ++ w.log } := by
  induction polls generalizing w with
  | nil => rfl
  | cons poll polls ih =>
    rw [foldl_cons, ih]
    cases poll <;> simp [acksOf, record]

/-- **What a teardown does**: it is logged, with the acknowledgements that came. -/
theorem teardownPeer_eq : w.teardownPeer env peer = { w with
      disconnects := w.disconnects + 1
      log := (acksOf w.disconnects (awaited peer (env.polls peer))).reverse ++
        .disconnect peer w.disconnects :: w.log } :=
  foldl_acks w.disconnects _ _

theorem acked_of_mem_acksOf {index : ℕ} {polls : List Poll} (h : act ∈ acksOf index polls) :
    ∃ peer i, act = .acked peer i := by
  obtain ⟨poll, -, hact⟩ := mem_filterMap.mp h
  cases poll with
  | disconnectAck node fresh => exact ⟨node, _, (some.inj hact).symm⟩
  | empty | closed => cases hact

end World

end Certus.RemoteLookup
